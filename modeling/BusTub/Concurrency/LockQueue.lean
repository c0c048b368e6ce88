import BusTub.Concurrency.LockSteps

/-! # The invariants of one request queue

The requests of a queue are what the lock sets and the sleeping threads say they are,
and its counters are summaries of the requests. Each lemma below is one change that the
lock manager makes to a queue.
-/

namespace BusTub.LockSystem

/-! ## Requests of one transaction -/

section Requests

variable {t : TxnId} {f : LockRequest → LockRequest} {requests : List LockRequest}
  {request own : LockRequest}

theorem map_txnId_modifyRequest (hf : ∀ r, (f r).txnId = r.txnId) :
    (modifyRequest t f requests).map LockRequest.txnId = requests.map LockRequest.txnId := by
  induction requests with
  | nil => rfl
  | cons head rest ih =>
      unfold modifyRequest
      split
      · simp [hf]
      · simp [ih]

theorem ne_of_mem_tail (hnodup : ((own :: requests).map LockRequest.txnId).Nodup)
    (hmem : request ∈ requests) : request.txnId ≠ own.txnId := by
  rw [List.map_cons, List.nodup_cons] at hnodup
  exact fun heq => hnodup.1 (heq ▸ List.mem_map_of_mem hmem)

theorem mem_modifyRequest (hnodup : (requests.map LockRequest.txnId).Nodup)
    (hown : own ∈ requests) (hid : own.txnId = t) :
    request ∈ modifyRequest t f requests ↔
      request ∈ requests ∧ request.txnId ≠ t ∨ request = f own := by
  subst hid
  induction requests with
  | nil => cases hown
  | cons head rest ih =>
      unfold modifyRequest
      rcases List.mem_cons.mp hown with rfl | htail
      · rw [if_pos rfl, List.mem_cons, List.mem_cons]
        constructor
        · rintro (hhead | hrest)
          · exact Or.inr hhead
          · exact Or.inl ⟨Or.inr hrest, ne_of_mem_tail hnodup hrest⟩
        · rintro (⟨hhead | hrest, hne⟩ | hmodified)
          · exact absurd (hhead ▸ rfl) hne
          · exact Or.inr hrest
          · exact Or.inl hmodified
      · have hne : head.txnId ≠ own.txnId := (ne_of_mem_tail hnodup htail).symm
        rw [List.map_cons, List.nodup_cons] at hnodup
        rw [if_neg hne, List.mem_cons, List.mem_cons, ih hnodup.2 htail]
        constructor
        · rintro (rfl | ⟨hrest, hother⟩ | hmodified)
          · exact Or.inl ⟨Or.inl rfl, hne⟩
          · exact Or.inl ⟨Or.inr hrest, hother⟩
          · exact Or.inr hmodified
        · rintro (⟨hhead | hrest, hother⟩ | hmodified)
          · exact Or.inl hhead
          · exact Or.inr (Or.inl ⟨hrest, hother⟩)
          · exact Or.inr (Or.inr hmodified)

theorem countP_modifyRequest (p : LockRequest → Bool)
    (hnodup : (requests.map LockRequest.txnId).Nodup) (hown : own ∈ requests)
    (hid : own.txnId = t) :
    (modifyRequest t f requests).countP p + (p own).toNat =
      requests.countP p + (p (f own)).toNat := by
  subst hid
  induction requests with
  | nil => cases hown
  | cons head rest ih =>
      unfold modifyRequest
      rcases List.mem_cons.mp hown with rfl | htail
      · rw [if_pos rfl, List.countP_cons, List.countP_cons]
        cases p own <;> cases p (f own) <;> simp
      · have hne : head.txnId ≠ own.txnId := (ne_of_mem_tail hnodup htail).symm
        rw [List.map_cons, List.nodup_cons] at hnodup
        rw [if_neg hne, List.countP_cons, List.countP_cons]
        have hrest := ih hnodup.2 htail
        omega

theorem mem_eraseRequest (hnodup : (requests.map LockRequest.txnId).Nodup) :
    request ∈ eraseRequest t requests ↔ request ∈ requests ∧ request.txnId ≠ t := by
  induction requests with
  | nil => simp [eraseRequest]
  | cons head rest ih =>
      unfold eraseRequest at ih ⊢
      have htail := hnodup
      rw [List.map_cons, List.nodup_cons] at htail
      by_cases hid : head.txnId = t
      · rw [List.eraseP_cons_of_pos (by simpa using hid)]
        subst hid
        constructor
        · exact fun hmem => ⟨List.mem_cons_of_mem _ hmem, ne_of_mem_tail hnodup hmem⟩
        · rintro ⟨hmem, hne⟩
          rcases List.mem_cons.mp hmem with rfl | hrest
          · exact absurd rfl hne
          · exact hrest
      · rw [List.eraseP_cons_of_neg (by simpa using hid), List.mem_cons, List.mem_cons,
          ih htail.2]
        constructor
        · rintro (rfl | ⟨hrest, hne⟩)
          · exact ⟨Or.inl rfl, hid⟩
          · exact ⟨Or.inr hrest, hne⟩
        · rintro ⟨hhead | hrest, hne⟩
          · exact Or.inl hhead
          · exact Or.inr ⟨hrest, hne⟩

theorem countP_eraseRequest (p : LockRequest → Bool)
    (hnodup : (requests.map LockRequest.txnId).Nodup) (hown : own ∈ requests)
    (hid : own.txnId = t) :
    (eraseRequest t requests).countP p + (p own).toNat = requests.countP p := by
  subst hid
  induction requests with
  | nil => cases hown
  | cons head rest ih =>
      unfold eraseRequest at ih ⊢
      rcases List.mem_cons.mp hown with rfl | htail
      · rw [List.eraseP_cons_of_pos (by simp), List.countP_cons]
        cases p own <;> simp
      · have hne : head.txnId ≠ own.txnId := (ne_of_mem_tail hnodup htail).symm
        rw [List.map_cons, List.nodup_cons] at hnodup
        rw [List.eraseP_cons_of_neg (by simpa using hne), List.countP_cons, List.countP_cons]
        have hrest := ih hnodup.2 htail
        omega

theorem nodup_eraseRequest (hnodup : (requests.map LockRequest.txnId).Nodup) :
    ((eraseRequest t requests).map LockRequest.txnId).Nodup :=
  hnodup.sublist (List.eraseP_sublist.map _)

/-- With one request for each transaction, `GetIterator` finds it. -/
theorem getIterator_eq_some (hnodup : (requests.map LockRequest.txnId).Nodup) :
    getIterator requests t = some own ↔ own ∈ requests ∧ own.txnId = t := by
  unfold getIterator
  constructor
  · intro hfind
    exact ⟨List.mem_of_find?_eq_some hfind, by simpa using List.find?_some hfind⟩
  · rintro ⟨hmem, rfl⟩
    induction requests with
    | nil => cases hmem
    | cons head rest ih =>
        rcases List.mem_cons.mp hmem with rfl | htail
        · exact List.find?_cons_of_pos (by simp)
        · have hne : head.txnId ≠ own.txnId := (ne_of_mem_tail hnodup htail).symm
          rw [List.map_cons, List.nodup_cons] at hnodup
          rw [List.find?_cons_of_neg (by simpa using hne)]
          exact ih hnodup.2 htail

end Requests

/-- The request is granted in the mode. -/
def isGranted (mode : LockMode) (request : LockRequest) : Bool :=
  request.granted ∧ request.lockMode = mode

/-- The number of granted requests of a mode. -/
def grantedCount (mode : LockMode) (requests : List LockRequest) : Nat :=
  requests.countP (isGranted mode)

theorem grantedCount_pos_of_mem {mode : LockMode} {requests : List LockRequest} {t : TxnId}
    (hmem : ⟨t, mode, true⟩ ∈ requests) : 0 < grantedCount mode requests :=
  List.countP_pos_iff.mpr ⟨_, hmem, by simp [isGranted]⟩

/-- Two transactions with granted requests of a mode make the count at least two. -/
theorem two_le_grantedCount {mode : LockMode} {requests : List LockRequest} {t u : TxnId}
    (hne : t ≠ u) (ht : ⟨t, mode, true⟩ ∈ requests) (hu : ⟨u, mode, true⟩ ∈ requests) :
    2 ≤ grantedCount mode requests := by
  induction requests with
  | nil => cases ht
  | cons head rest ih =>
      unfold grantedCount
      rcases List.mem_cons.mp ht with hthead | htrest
      · rcases List.mem_cons.mp hu with huhead | hurest
        · rw [← hthead] at huhead
          exact absurd (congrArg LockRequest.txnId huhead).symm hne
        · rw [← hthead, List.countP_cons_of_pos (by simp [isGranted])]
          have hpos := grantedCount_pos_of_mem hurest
          unfold grantedCount at hpos
          omega
      · rcases List.mem_cons.mp hu with huhead | hurest
        · rw [← huhead, List.countP_cons_of_pos (by simp [isGranted])]
          have hpos := grantedCount_pos_of_mem htrest
          unfold grantedCount at hpos
          omega
        · have htwo := ih htrest hurest
          unfold grantedCount at htwo
          rw [List.countP_cons]
          omega

/-! ## The requests -/

/-- A transaction has a request exactly when its lock sets (`shared`, `exclusive`) or
its sleeping thread (`waiting`) say so, and it has one at most. -/
structure RequestInvariant (requests : List LockRequest) (shared exclusive : TxnId → Prop)
    (waiting : TxnId → Option LockMode) : Prop where
  nodup : (requests.map LockRequest.txnId).Nodup
  shared_iff : ∀ t, shared t ↔ ⟨t, .shared, true⟩ ∈ requests
  exclusive_iff : ∀ t, exclusive t ↔ ⟨t, .exclusive, true⟩ ∈ requests
  waiting_iff : ∀ t mode, waiting t = some mode ↔ ⟨t, mode, false⟩ ∈ requests

namespace RequestInvariant

variable {requests : List LockRequest} {shared exclusive : TxnId → Prop}
  {waiting : TxnId → Option LockMode} {t : TxnId}

theorem empty : RequestInvariant [] (fun _ => False) (fun _ => False) (fun _ => none) := by
  constructor <;> simp

/-- The invariant reads the lock sets and threads only through their values. -/
theorem congr {shared' exclusive' : TxnId → Prop} {waiting' : TxnId → Option LockMode}
    (h : RequestInvariant requests shared exclusive waiting) (hshared : ∀ u, shared' u ↔ shared u)
    (hexclusive : ∀ u, exclusive' u ↔ exclusive u) (hwaiting : ∀ u, waiting' u = waiting u) :
    RequestInvariant requests shared' exclusive' waiting' where
  nodup := h.nodup
  shared_iff u := (hshared u).trans (h.shared_iff u)
  exclusive_iff u := (hexclusive u).trans (h.exclusive_iff u)
  waiting_iff u mode := by rw [hwaiting u]; exact h.waiting_iff u mode

/-- A transaction has at most one request, so at most one kind of entry. -/
theorem unique (h : RequestInvariant requests shared exclusive waiting)
    {first second : LockRequest} (hfirst : first ∈ requests) (hsecond : second ∈ requests)
    (hid : first.txnId = second.txnId) : first = second :=
  List.inj_on_of_nodup_map h.nodup hfirst hsecond hid

/-- The request that a lock call appends stands for the caller, which from then
on counts as asleep. -/
theorem push (h : RequestInvariant requests shared exclusive waiting) (mode : LockMode)
    (hshared : ¬ shared t) (hexclusive : ¬ exclusive t) (hwaiting : waiting t = none) :
    RequestInvariant (requests ++ [⟨t, mode, false⟩]) shared exclusive
      (Function.update waiting t (some mode)) where
  nodup := by
    have hfresh : t ∉ requests.map LockRequest.txnId := by
      rw [List.mem_map]
      rintro ⟨⟨id, m, granted⟩, hmem, rfl⟩
      cases granted with
      | false =>
          rw [(h.waiting_iff _ _).mpr hmem] at hwaiting
          cases hwaiting
      | true =>
          cases m with
          | shared => exact hshared ((h.shared_iff _).mpr hmem)
          | exclusive => exact hexclusive ((h.exclusive_iff _).mpr hmem)
    rw [List.map_append, List.map_singleton]
    exact h.nodup.append (List.nodup_singleton t) (by simpa using hfresh)
  shared_iff u := by simp [h.shared_iff u]
  exclusive_iff u := by simp [h.exclusive_iff u]
  waiting_iff u m := by
    by_cases hself : u = t
    · subst hself
      have hnot : ⟨u, m, false⟩ ∉ requests := by
        rw [← h.waiting_iff, hwaiting]
        simp
      simp [hnot, eq_comm]
    · simp [h.waiting_iff u m, hself]

/-- Writing through the iterator: the caller's request `own` becomes `f own`. -/
theorem modify (h : RequestInvariant requests shared exclusive waiting)
    {f : LockRequest → LockRequest} {own : LockRequest} (hown : own ∈ requests)
    (hid : own.txnId = t) (hf : ∀ r, (f r).txnId = r.txnId) :
    RequestInvariant (modifyRequest t f requests)
      (fun u => if u = t then isGranted .shared (f own) = true else shared u)
      (fun u => if u = t then isGranted .exclusive (f own) = true else exclusive u)
      (fun u => if u = t then (if (f own).granted then none else some (f own).lockMode)
        else waiting u) := by
  have hmem : ∀ request, request ∈ modifyRequest t f requests ↔
      request ∈ requests ∧ request.txnId ≠ t ∨ request = f own :=
    fun _ => mem_modifyRequest h.nodup hown hid
  have hnew : (f own).txnId = t := (hf own).trans hid
  refine ⟨?_, ?_, ?_, ?_⟩
  · rw [map_txnId_modifyRequest hf]
    exact h.nodup
  · intro u
    rw [hmem]
    by_cases hself : u = t
    · subst hself
      generalize f own = new at hnew ⊢
      obtain ⟨id, mode, granted⟩ := new
      cases hnew
      cases mode <;> cases granted <;> simp [isGranted]
    · have hother : (⟨u, .shared, true⟩ : LockRequest) ≠ f own :=
        fun heq => hself (hnew ▸ congrArg LockRequest.txnId heq)
      simp [hself, hother, h.shared_iff u]
  · intro u
    rw [hmem]
    by_cases hself : u = t
    · subst hself
      generalize f own = new at hnew ⊢
      obtain ⟨id, mode, granted⟩ := new
      cases hnew
      cases mode <;> cases granted <;> simp [isGranted]
    · have hother : (⟨u, .exclusive, true⟩ : LockRequest) ≠ f own :=
        fun heq => hself (hnew ▸ congrArg LockRequest.txnId heq)
      simp [hself, hother, h.exclusive_iff u]
  · intro u m
    rw [hmem]
    by_cases hself : u = t
    · subst hself
      generalize f own = new at hnew ⊢
      obtain ⟨id, mode, granted⟩ := new
      cases hnew
      cases granted <;> simp [eq_comm]
    · have hother : (⟨u, m, false⟩ : LockRequest) ≠ f own :=
        fun heq => hself (hnew ▸ congrArg LockRequest.txnId heq)
      simp [hself, hother, h.waiting_iff u m]

/-- Erasing the request of a transaction. -/
theorem erase (h : RequestInvariant requests shared exclusive waiting) (t : TxnId) :
    RequestInvariant (eraseRequest t requests) (fun u => u ≠ t ∧ shared u)
      (fun u => u ≠ t ∧ exclusive u) (fun u => if u = t then none else waiting u) := by
  have hmem : ∀ request, request ∈ eraseRequest t requests ↔
      request ∈ requests ∧ request.txnId ≠ t :=
    fun _ => mem_eraseRequest h.nodup
  refine ⟨nodup_eraseRequest h.nodup, ?_, ?_, ?_⟩
  · intro u
    rw [hmem, h.shared_iff u, and_comm]
  · intro u
    rw [hmem, h.exclusive_iff u, and_comm]
  · intro u m
    rw [hmem]
    by_cases hself : u = t
    · simp [hself]
    · simp [hself, h.waiting_iff u m]

end RequestInvariant

/-! ## The counters -/

/-- The counters summarise the granted requests. -/
structure CountersRight (q : LockRequestQueue) : Prop where
  sharingCount : q.sharingCount = grantedCount .shared q.requestQueue
  isWriting : grantedCount .exclusive q.requestQueue = q.isWriting.toNat

namespace CountersRight

variable {q final : LockRequestQueue} {t : TxnId}

theorem empty : CountersRight {} := by
  constructor <;> simp [grantedCount]

/-- A request that is not granted is not counted. -/
theorem push (h : CountersRight q) (mode : LockMode) :
    CountersRight { q with requestQueue := q.requestQueue ++ [⟨t, mode, false⟩] } where
  sharingCount := by simpa [grantedCount, isGranted] using h.sharingCount
  isWriting := by simpa [grantedCount, isGranted] using h.isWriting

/-- The caller's request `own` becomes `f own`, and the counters follow it. -/
theorem modify (h : CountersRight q) (hnodup : (q.requestQueue.map LockRequest.txnId).Nodup)
    {f : LockRequest → LockRequest} {own : LockRequest} (hown : own ∈ q.requestQueue)
    (hid : own.txnId = t) (hqueue : final.requestQueue = modifyRequest t f q.requestQueue)
    (hsharing : final.sharingCount + (isGranted .shared own).toNat =
      q.sharingCount + (isGranted .shared (f own)).toNat)
    (hwriting : final.isWriting.toNat + (isGranted .exclusive own).toNat =
      q.isWriting.toNat + (isGranted .exclusive (f own)).toNat) : CountersRight final := by
  constructor
  · have hcount := countP_modifyRequest (f := f) (isGranted .shared) hnodup hown hid
    have hbefore := h.sharingCount
    unfold grantedCount at hbefore ⊢
    rw [hqueue]
    omega
  · have hcount := countP_modifyRequest (f := f) (isGranted .exclusive) hnodup hown hid
    have hbefore := h.isWriting
    unfold grantedCount at hbefore ⊢
    rw [hqueue]
    omega

/-- The caller's request `own` is erased, and the counters follow it. -/
theorem erase (h : CountersRight q) (hnodup : (q.requestQueue.map LockRequest.txnId).Nodup)
    {own : LockRequest} (hown : own ∈ q.requestQueue) (hid : own.txnId = t)
    (hqueue : final.requestQueue = eraseRequest t q.requestQueue)
    (hsharing : final.sharingCount + (isGranted .shared own).toNat = q.sharingCount)
    (hwriting : final.isWriting.toNat + (isGranted .exclusive own).toNat = q.isWriting.toNat) :
    CountersRight final := by
  constructor
  · have hcount := countP_eraseRequest (isGranted .shared) hnodup hown hid
    have hbefore := h.sharingCount
    unfold grantedCount at hbefore ⊢
    rw [hqueue]
    omega
  · have hcount := countP_eraseRequest (isGranted .exclusive) hnodup hown hid
    have hbefore := h.isWriting
    unfold grantedCount at hbefore ⊢
    rw [hqueue]
    omega

end CountersRight

/-- The counters are right, and a transaction has a request exactly when its
lock sets (`shared`, `exclusive`) or its sleeping thread (`waiting`) say so. -/
structure QueueInvariant (q : LockRequestQueue) (shared exclusive : TxnId → Prop)
    (waiting : TxnId → Option LockMode) : Prop where
  nodup : (q.requestQueue.map LockRequest.txnId).Nodup
  sharingCount : q.sharingCount = grantedCount .shared q.requestQueue
  isWriting : grantedCount .exclusive q.requestQueue = q.isWriting.toNat
  shared_iff : ∀ t, shared t ↔ ⟨t, .shared, true⟩ ∈ q.requestQueue
  exclusive_iff : ∀ t, exclusive t ↔ ⟨t, .exclusive, true⟩ ∈ q.requestQueue
  waiting_iff : ∀ t mode, waiting t = some mode ↔ ⟨t, mode, false⟩ ∈ q.requestQueue

theorem queueInvariant_iff {q : LockRequestQueue} {shared exclusive : TxnId → Prop}
    {waiting : TxnId → Option LockMode} : QueueInvariant q shared exclusive waiting ↔
      RequestInvariant q.requestQueue shared exclusive waiting ∧ CountersRight q := by
  constructor
  · intro h
    exact ⟨⟨h.nodup, h.shared_iff, h.exclusive_iff, h.waiting_iff⟩, h.sharingCount, h.isWriting⟩
  · rintro ⟨hrequests, hcounters⟩
    exact ⟨hrequests.nodup, hcounters.sharingCount, hcounters.isWriting, hrequests.shared_iff,
      hrequests.exclusive_iff, hrequests.waiting_iff⟩

end BusTub.LockSystem
