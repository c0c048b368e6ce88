import BusTub.Buffer.UnsavedPages
import BusTub.Hash.PairSet
import BusTub.Hash.TablePrograms

/-! # The hash table over a small pool

A table whose pages are bytes in a pool that evicts them returns what a table returns that has
its pages to itself, as long as no page of it is evicted unsaved. Not every change of the table
is declared: `SplitInsert` unpins a directory that it has changed but not grown as clean. Where
the splits are close, what it returns is what a finite set of pairs returns, and the assertions
of `VerifyIntegrity` hold.
-/

namespace BusTub.PagedTable

open ExtendibleHashTable (intComparator intComparator_eq_zero_iff Represents SplitsClose)

variable {poolSize : Nat} {K V : Type} [DecidableEq V] {c : TableConfig K V}

/-! ## A table by itself -/

/-- The calls of a table that has its pages to itself, one after the other. -/
def machine (c : TableConfig K V) :
    Machine (ExtendibleHashTable K V) (Request K V) (Response V) Fault where
  step t
    | .getValue key =>
        let (success, values) := t.getValue c key
        .ok (.found success values, t)
    | .insert key value =>
        match t.insert c key value with
        | .error fault => .error (.table fault)
        | .ok (success, t) => .ok (.inserted success, t)
    | .remove key value =>
        let (success, t) := t.remove c key value
        .ok (.removed success, t)
    | .getGlobalDepth => .ok (.depth t.directory.globalDepth, t)
    | .verifyIntegrity =>
        if verifyIntegrity t.directory then .ok (.done, t) else .error .assertion
    | .fetchOther _ => .ok (.done, t)
    | .unpinOther _ _ => .ok (.done, t)

section Runs

variable {t final : ExtendibleHashTable K V} {request : Request K V} {response : Response V}
  {requests : List (Request K V)} {responses : List (Response V)}

theorem insert_ok {key : K} {value : V}
    (hstep : (machine c).step t (.insert key value) = .ok (response, final)) :
    ∃ success, t.insert c key value = .ok (success, final) ∧ response = .inserted success := by
  cases hinsert : t.insert c key value with
  | error fault =>
      simp only [machine, hinsert] at hstep
      cases hstep
  | ok result =>
      obtain ⟨success, next⟩ := result
      simp only [machine, hinsert] at hstep
      cases hstep
      exact ⟨success, rfl, rfl⟩

theorem fitsPages_step (h : t.FitsPages c) (hstep : (machine c).step t request = .ok (response, final)) :
    final.FitsPages c ∧ t.nextPageId ≤ final.nextPageId := by
  cases request with
  | insert key value =>
      obtain ⟨success, hinsert, -⟩ := insert_ok hstep
      exact h.insert hinsert
  | remove key value =>
      cases hstep
      exact ⟨(h.remove key value).1, ge_of_eq (h.remove key value).2⟩
  | verifyIntegrity =>
      simp only [machine] at hstep
      split at hstep
      · cases hstep
        exact ⟨h, le_refl _⟩
      · cases hstep
  | getValue key =>
      cases hstep
      exact ⟨h, le_refl _⟩
  | getGlobalDepth =>
      cases hstep
      exact ⟨h, le_refl _⟩
  | fetchOther pageId =>
      cases hstep
      exact ⟨h, le_refl _⟩
  | unpinOther pageId isDirty =>
      cases hstep
      exact ⟨h, le_refl _⟩

theorem le_nextPageId_run (h : t.FitsPages c)
    (hrun : (machine c).run t requests = .ok (responses, final)) :
    t.nextPageId ≤ final.nextPageId := by
  induction requests generalizing t responses with
  | nil =>
      cases hrun
      exact le_refl _
  | cons request rest ih =>
      obtain ⟨response, middle, tail, hstep, htail, -⟩ := Machine.run_cons_ok hrun
      obtain ⟨hmiddle, hle⟩ := fitsPages_step h hstep
      exact le_trans hle (ih hmiddle htail)

end Runs

/-! ## Tables as pair sets -/

theorem verifyIntegrity_of_wellFormed {d : DirectoryPage} (h : d.WellFormed) :
    verifyIntegrity d := by
  unfold verifyIntegrity
  simp only [List.all_eq_true, List.mem_range, decide_eq_true_eq]
  intro i hi
  refine ⟨h.depth_le i hi, fun j hj hpage => h.sameDepth hj hi hpage, ?_⟩
  rw [Nat.one_shiftLeft, ← h.card_pointers hi, List.countP_eq_length_filter]
  rfl

/-- The call of the table's interface that a request makes. -/
def Request.call? : Request K V → Option (TableCall K V)
  | .getValue key => some (.getValue key)
  | .insert key value => some (.insert key value)
  | .remove key value => some (.remove key value)
  | _ => none

/-- What such a call returns. -/
def Response.outcome? : Response V → Option (TableOutcome V)
  | .found success values => some (.getValue success values)
  | .inserted success => some (.insert success)
  | .removed success => some (.remove success)
  | _ => none

/-- Insertions split buckets only whose local depth is at most one less than the global depth. -/
def ClosesRequest (c : TableConfig K V) (t : ExtendibleHashTable K V) : Request K V → Prop
  | .insert key _ => SplitsClose c t key
  | _ => True

instance (t : ExtendibleHashTable K V) : DecidablePred (ClosesRequest c t)
  | .insert _ _ => inferInstanceAs (Decidable (_ → _))
  | .getValue _ | .remove _ _ | .getGlobalDepth | .verifyIntegrity | .fetchOther _
  | .unpinOther _ _ => inferInstanceAs (Decidable True)

section PairSets

variable {t : ExtendibleHashTable K V} {pairs : Finset (c.scheme.KeyClass × V)}

theorem insert_represents (h : Represents c t pairs) (key : K) (value : V)
    (hclose : SplitsClose c t key) :
    (machine c).step t (.insert key value) = .error (.table .directoryFull) ∨
      ∃ success next pairs', (machine c).step t (.insert key value) =
          .ok (.inserted success, next) ∧
        c.scheme.pairSet.step pairs (.insert key value) = .ok (.insert success, pairs') ∧
        Represents c next pairs' := by
  rcases h.step (.insert key value) hclose with
    hstop | ⟨outcome, next, pairs', hstep, hspec, hnext⟩
  · left
    cases hinsert : t.insert c key value with
    | error fault =>
        simp only [ExtendibleHashTable.machine, hinsert] at hstop
        cases hstop
        simp only [machine, hinsert]
    | ok result =>
        simp only [ExtendibleHashTable.machine, hinsert] at hstop
        cases hstop
  · right
    cases hinsert : t.insert c key value with
    | error fault =>
        simp only [ExtendibleHashTable.machine, hinsert] at hstep
        cases hstep
    | ok result =>
        simp only [ExtendibleHashTable.machine, hinsert, Except.ok.injEq, Prod.mk.injEq] at hstep
        obtain ⟨rfl, rfl⟩ := hstep
        refine ⟨result.1, result.2, pairs', ?_, hspec, hnext⟩
        simp only [machine, hinsert]

/-- A call of the interface is a call of the pair set; the other requests leave the table as it
is. -/
theorem step_represents (h : Represents c t pairs) {request : Request K V}
    (hclose : ClosesRequest c t request) :
    (machine c).step t request = .error (.table .directoryFull) ∨
      ∃ response next pairs', (machine c).step t request = .ok (response, next) ∧
        c.scheme.pairSet.run pairs request.call?.toList =
          .ok (response.outcome?.toList, pairs') ∧ Represents c next pairs' := by
  cases request with
  | insert key value =>
      refine (insert_represents h key value hclose).imp id ?_
      rintro ⟨success, next, pairs', hstep, hspec, hnext⟩
      exact ⟨_, next, pairs', hstep, Machine.run_cons_of_step hspec [], hnext⟩
  | remove key value =>
      obtain ⟨hsuccess, hnext⟩ := h.remove (h.1.remove_spec key value)
      have hspec : c.scheme.pairSet.step pairs (.remove key value) =
          .ok (.remove (t.remove c key value).1,
            pairs.erase (c.scheme.keyClass key, value)) := by
        simp only [KeyScheme.pairSet, hsuccess]
      exact Or.inr ⟨_, _, _, rfl, Machine.run_cons_of_step hspec [], hnext⟩
  | getValue key =>
      obtain ⟨hvalues, hfound⟩ := h.getValue key
      have hspec : c.scheme.pairSet.step pairs (.getValue key) =
          .ok (.getValue (t.getValue c key).1 (t.getValue c key).2, pairs) := by
        simp only [KeyScheme.pairSet, hvalues, hfound]
      exact Or.inr ⟨_, t, pairs, rfl, Machine.run_cons_of_step hspec [], h⟩
  | verifyIntegrity =>
      refine Or.inr ⟨.done, t, pairs, ?_, rfl, h⟩
      simp only [machine, if_pos (verifyIntegrity_of_wellFormed h.1.directory)]
  | getGlobalDepth => exact Or.inr ⟨_, t, pairs, rfl, rfl, h⟩
  | fetchOther pageId => exact Or.inr ⟨_, t, pairs, rfl, rfl, h⟩
  | unpinOther pageId isDirty => exact Or.inr ⟨_, t, pairs, rfl, rfl, h⟩

theorem filterMap_cons_eq_append {α β : Type} (f : α → Option β) (a : α) (rest : List α) :
    (a :: rest).filterMap f = (f a).toList ++ rest.filterMap f := by
  rw [List.filterMap_cons]
  cases f a with
  | none => rfl
  | some b => rfl

theorem run_represents (h : Represents c t pairs) {requests : List (Request K V)}
    (hclose : (machine c).Guarded (ClosesRequest c) t requests) :
    (machine c).run t requests = .error (.table .directoryFull) ∨
      ∃ responses final pairs', (machine c).run t requests = .ok (responses, final) ∧
        c.scheme.pairSet.run pairs (requests.filterMap Request.call?) =
          .ok (responses.filterMap Response.outcome?, pairs') := by
  induction requests generalizing t pairs with
  | nil => exact Or.inr ⟨[], t, pairs, rfl, rfl⟩
  | cons request rest ih =>
      rcases step_represents h hclose.1 with
        hstop | ⟨response, next, pairs', hstep, hspec, hnext⟩
      · left
        simp only [Machine.run, hstop]
      · rw [Machine.run_cons_of_step hstep]
        rcases ih hnext (hclose.2 response next hstep) with
          hstop | ⟨responses, final, last, hrun, hrest⟩
        · left
          rw [hstop]
        · right
          rw [hrun]
          refine ⟨response :: responses, final, last, rfl, ?_⟩
          rw [filterMap_cons_eq_append, filterMap_cons_eq_append]
          exact Machine.run_append hspec hrest

end PairSets

/-! ## The programs of a session -/

section Programs

variable {layout : PairLayout c} {first : PageId} {instances : Nat}
  {t final : ExtendibleHashTable K V} (hfirst : 0 ≤ first) (hinstances : 0 < instances)

include hfirst hinstances

theorem serve_leads (h : t.FitsPages c) {request : Request K V} {response : Response V}
    (hstep : (machine c).step t request = .ok (response, final))
    (hids : poolPageId first instances final.nextPageId < 2 ^ 31) :
    Leads (Has layout first instances t []) (serve layout directoryArraySize first request)
      fun result k => Has layout first instances final [] k ∧ result = response := by
  cases request with
  | getValue key =>
      cases hstep
      refine (getValue_leads h key).bind fun result => Program.meets_of_fact fun hresult => ?_
      subst hresult
      exact Program.meets_done fun k hk => ⟨hk, rfl⟩
  | insert key value =>
      obtain ⟨success, hinsert, rfl⟩ := insert_ok hstep
      refine (insert_leads hfirst hinstances h hinsert hids).bind fun result =>
        Program.meets_of_fact fun hresult => ?_
      subst hresult
      exact Program.meets_done fun k hk => ⟨hk, rfl⟩
  | remove key value =>
      simp only [machine, Except.ok.injEq, Prod.mk.injEq] at hstep
      obtain ⟨rfl, rfl⟩ := hstep
      rw [(h.remove key value).2] at hids
      refine (remove_leads hfirst hinstances h hids key value).bind fun result =>
        Program.meets_of_fact fun hresult => ?_
      subst hresult
      exact Program.meets_done fun k hk => ⟨hk, rfl⟩
  | getGlobalDepth =>
      cases hstep
      refine getGlobalDepth_leads.bind fun result => Program.meets_of_fact fun hresult => ?_
      subst hresult
      exact Program.meets_done fun k hk => ⟨hk, rfl⟩
  | verifyIntegrity =>
      simp only [machine] at hstep
      split at hstep
      next hholds =>
        cases hstep
        refine (verify_leads hfirst hinstances hholds).bind fun _ => ?_
        exact Program.meets_done fun k hk => ⟨hk, rfl⟩
      next => cases hstep
  | fetchOther pageId =>
      cases hstep
      exact Program.meets_call _ (fun k hk => ⟨trivial, (), k, rfl, hk⟩) fun _ =>
        Program.meets_done fun k hk => ⟨hk, rfl⟩
  | unpinOther pageId isDirty =>
      cases hstep
      exact Program.meets_call _ (fun k hk => ⟨trivial, (), k, rfl, hk⟩) fun _ =>
        Program.meets_done fun k hk => ⟨hk, rfl⟩

theorem serveAll_leads (h : t.FitsPages c) {requests : List (Request K V)}
    {responses : List (Response V)}
    (hrun : (machine c).run t requests = .ok (responses, final))
    (hids : poolPageId first instances final.nextPageId < 2 ^ 31) :
    Leads (Has layout first instances t []) (serveAll layout directoryArraySize first requests)
      fun result _ => result = responses := by
  induction requests generalizing t responses with
  | nil =>
      cases hrun
      exact Program.meets_done fun k _ => rfl
  | cons request rest ih =>
      obtain ⟨response, middle, tail, hstep, htail, rfl⟩ := Machine.run_cons_ok hrun
      have hmiddle := (fitsPages_step h hstep).1
      have hbefore : poolPageId first instances middle.nextPageId < 2 ^ 31 :=
        lt_of_le_of_lt (poolPageId_le hfirst hinstances
          (le_nextPageId_run hmiddle htail)) hids
      refine (serve_leads hfirst hinstances h hstep hbefore).bind fun result =>
        Program.meets_of_fact fun hresult => ?_
      subst hresult
      refine (ih hmiddle htail).bind fun results => ?_
      exact Program.meets_done fun k hresults => congrArg _ hresults

end Programs

/-- Over a pool that never evicts, a session returns what the table returns. -/
theorem session_keeping (layout : PairLayout c) {pool : BufferPoolManagerInstance poolSize}
    {requests : List (Request K V)} {responses : List (Response V)}
    {final : ExtendibleHashTable K V} (hfirst : 0 ≤ pool.nextPageId)
    (hinstances : 0 < pool.numInstances)
    (hrun : (machine c).run (.create c) requests = .ok (responses, final))
    (hids : pool.nextPageId + final.nextPageId * pool.numInstances < 2 ^ 31) :
    (session layout directoryArraySize requests).value (KeepingPool.handler Fault) (.of pool) =
      .ok responses := by
  have hfits := ExtendibleHashTable.fitsPages_create c
  have hle := le_nextPageId_run hfits hrun
  rw [← poolPageId_of_pos (lt_of_lt_of_le hfits.pos hle)] at hids
  have hbefore : poolPageId pool.nextPageId pool.numInstances 3 < 2 ^ 31 :=
    lt_of_le_of_lt (poolPageId_le hfirst hinstances hle) hids
  have hleads : Leads (fun start => start = .of pool)
      (session layout directoryArraySize requests) fun result _ => result = responses := by
    refine (create_leads layout hfirst hinstances (fun _ => rfl) hbefore).bind fun first =>
      Program.meets_of_fact fun hfirstPage => ?_
    subst hfirstPage
    exact serveAll_leads hfirst hinstances hfits hrun hids
  obtain ⟨-, result, k, hvalue, rfl⟩ := hleads _ rfl
  exact Program.value_eq_ok.mpr ⟨k, hvalue⟩

/-! ## Small pools -/

section SmallPools

variable (layout : PairLayout c) {pool : BufferPoolManagerInstance poolSize}
  (hframes : pool.Frames none) (hdisk : pool.diskManager.Healthy)
  (hresident : ∀ pageId frameId, pool.pageTable pageId = some frameId →
    DiskManager.Addressable pageId) {requests : List (Request K V)}

include hframes hdisk hresident

/-- Over a pool that has a page for every call and evicts no page of the table unsaved, a session
returns what it returns over a pool that never evicts, and does not return where it does not
there. -/
theorem session_agrees {fuel : Nat}
    (hcalls : (session layout fuel requests).Guarded (SmallPool.handler poolSize Fault)
      (fun s call => s.Serves call ∧ s.Apart call ∧ s.SavesPages call) { pool }) :
    (∀ responses, (session layout fuel requests).value (KeepingPool.handler Fault) (.of pool) =
        .ok responses →
      (session layout fuel requests).value (SmallPool.handler poolSize Fault) { pool } =
        .ok responses) ∧
    ∀ fault, (session layout fuel requests).value (KeepingPool.handler Fault) (.of pool) =
        .error (.client fault) →
      (session layout fuel requests).value (SmallPool.handler poolSize Fault) { pool } =
        .error (.client fault) := by
  have hbacks := SmallPool.backs_start hframes hdisk hresident
  have hkeeping : (session layout fuel requests).Guarded (KeepingPool.handler Fault)
      (fun _ _ => True) (.of pool) := Program.guarded_of_forall fun _ _ => trivial
  refine ⟨fun responses hvalue => ?_, fun fault hvalue => ?_⟩
  · exact Program.value_agrees SmallPool.handler_agrees hbacks hkeeping hcalls hvalue
  · exact Program.value_error_agrees SmallPool.handler_agrees
      (fun _ _ _ => KeepingPool.client_spec) hbacks hkeeping hcalls hvalue

variable (hinstances : 0 < pool.numInstances)
  (hcalls : (session layout directoryArraySize requests).Guarded
    (SmallPool.handler poolSize Fault)
    (fun s call => s.Serves call ∧ s.Apart call ∧ s.SavesPages call) { pool })

include hinstances hcalls

/-- Calls of a table, with other clients of the pool between them, over a pool that has a
page for every call and evicts no page of the table unsaved. -/
theorem session_machine {responses : List (Response V)} {final : ExtendibleHashTable K V}
    (hrun : (machine c).run (.create c) requests = .ok (responses, final))
    (hids : pool.nextPageId + final.nextPageId * pool.numInstances < 2 ^ 31) :
    (session layout directoryArraySize requests).value (SmallPool.handler poolSize Fault)
      { pool } = .ok responses := by
  have hfirst : DiskManager.Addressable pool.nextPageId :=
    (Program.guarded_head (c := PoolCall.newPage) hcalls).2.1.1
  exact Program.value_agrees SmallPool.handler_agrees
    (SmallPool.backs_start hframes hdisk hresident)
    (Program.guarded_of_forall fun _ _ => trivial) hcalls
    (session_keeping layout hfirst.1 hinstances hrun hids)

/-- Where the splits are close, the calls return what they return on a finite set of pairs, and
no assertion of `VerifyIntegrity` fails. -/
theorem session_pairSet
    (hclose : (machine c).Guarded (ClosesRequest c) (.create c) requests)
    (hfits : (machine c).run (.create c) requests ≠ .error (.table .directoryFull))
    (hids : ∀ responses final, (machine c).run (.create c) requests = .ok (responses, final) →
      pool.nextPageId + final.nextPageId * pool.numInstances < 2 ^ 31) :
    ∃ responses pairs, (session layout directoryArraySize requests).value
        (SmallPool.handler poolSize Fault) { pool } = .ok responses ∧
      c.scheme.pairSet.run ∅ (requests.filterMap Request.call?) =
        .ok (responses.filterMap Response.outcome?, pairs) := by
  have hfirst : DiskManager.Addressable pool.nextPageId :=
    (Program.guarded_head (c := PoolCall.newPage) hcalls).2.1.1
  rcases run_represents (ExtendibleHashTable.represents_create c) hclose with
    hstop | ⟨responses, final, pairs, hrun, hspec⟩
  · exact absurd hstop hfits
  · refine ⟨responses, pairs, Program.value_agrees SmallPool.handler_agrees
      (SmallPool.backs_start hframes hdisk hresident)
      (Program.guarded_of_forall fun _ _ => trivial) hcalls
      (session_keeping layout hfirst.1 hinstances hrun (hids _ _ hrun)), hspec⟩

end SmallPools

theorem mappingSize_fits : 4 * 8 + 1 ≤ 4 * pageSize := by decide

/-- The table of 32-bit keys and values, with the key itself as its hash. -/
def wordTable : TableConfig (BitVec 32) (BitVec 32) where
  scheme :=
    { cmp := fun lhs rhs => intComparator lhs.toInt rhs.toInt
      getHash := BitVec.toNat
      equality := by
        simp only [intComparator_eq_zero_iff, BitVec.toInt_inj]
        exact eq_equivalence
      hash_eq := fun lhs rhs heq => by
        rw [BitVec.toInt_inj.mp ((intComparator_eq_zero_iff _ _).mp heq)] }
  mappingSize := 8
  zero := (0, 0)
  fits := mappingSize_fits

/-- A key and its value after two bitmaps of 62 bytes. -/
def wordLayout : PairLayout wordTable where
  arrayOffset := 124
  encode pair i :=
    if i < 4 then byteOfWord pair.1.toNat i else byteOfWord pair.2.toNat (i - 4)
  decode bytes :=
    (.ofNat 32 (ofBytes ((List.range 4).map bytes)),
      .ofNat 32 (ofBytes ((List.range 4).map fun i => bytes (4 + i))))
  decode_encode := by
    intro pair bytes hbytes
    have hsize : wordTable.mappingSize = 8 := rfl
    have hkey : (List.range 4).map bytes = toBytes 4 pair.1.toNat := by
      refine map_range_eq_toBytes fun i hi => ?_
      rw [hbytes i (by omega), if_pos hi]
    have hvalue : (List.range 4).map (fun i => bytes (4 + i)) = toBytes 4 pair.2.toNat := by
      refine map_range_eq_toBytes fun i hi => ?_
      rw [hbytes (4 + i) (by omega), if_neg (by omega), Nat.add_sub_cancel_left]
    rw [hkey, hvalue, ofBytes_toBytes_of_lt pair.1.isLt, ofBytes_toBytes_of_lt pair.2.isLt,
      BitVec.ofNat_toNat, BitVec.setWidth_eq, BitVec.ofNat_toNat, BitVec.setWidth_eq]
  zero := by decide
  after := by decide
  fits := by decide

/-- A pool of three frames over an empty file. -/
def threeFrames : BufferPoolManagerInstance 3 := .create 3 1 0 { bytes := fun _ => 0, size := 0 }

/-- Another client's page evicts a bucket, which is fetched again. -/
def evictingRequests : List (Request (BitVec 32) (BitVec 32)) :=
  [.insert 5 7, .insert 4 8, .fetchOther 9, .unpinOther 9 false, .getValue 5, .remove 5 7,
    .getValue 5]

theorem run_evictingRequests : ((machine wordTable).run (.create wordTable) evictingRequests).map
    (fun result => (result.1, result.2.nextPageId)) =
      .ok ([.inserted true, .inserted true, .done, .done, .found true [7], .removed true,
        .found false []], 3) := by decide +kernel

theorem exists_run_evictingRequests : ∃ final,
    (machine wordTable).run (.create wordTable) evictingRequests =
      .ok ([.inserted true, .inserted true, .done, .done, .found true [7], .removed true,
        .found false []], final) ∧ final.nextPageId = 3 := by
  have hmap := run_evictingRequests
  cases hrun : (machine wordTable).run (.create wordTable) evictingRequests with
  | error fault =>
      rw [hrun] at hmap
      cases hmap
  | ok result =>
      obtain ⟨responses, final⟩ := result
      rw [hrun] at hmap
      simp only [Except.map, Except.ok.injEq, Prod.mk.injEq] at hmap
      obtain ⟨rfl, hnext⟩ := hmap
      exact ⟨final, rfl, hnext⟩

theorem session_agrees_threeFrames :
    (session wordLayout directoryArraySize evictingRequests).value (KeepingPool.handler Fault)
        (.of threeFrames) =
      .ok [.inserted true, .inserted true, .done, .done, .found true [7], .removed true,
        .found false []] ∧
    (session wordLayout directoryArraySize evictingRequests).value (SmallPool.handler 3 Fault)
        { pool := threeFrames } =
      .ok [.inserted true, .inserted true, .done, .done, .found true [7], .removed true,
        .found false []] := by
  have hkeeping : (session wordLayout directoryArraySize evictingRequests).value
      (KeepingPool.handler Fault) (.of threeFrames) =
        .ok [.inserted true, .inserted true, .done, .done, .found true [7], .removed true,
          .found false []] := by decide +kernel
  refine ⟨hkeeping, (session_agrees wordLayout (BufferPoolManagerInstance.frames_create 1 0 _)
    ⟨rfl, by decide⟩ ?_ (by decide +kernel)).1 _ hkeeping⟩
  rintro pageId frameId ⟨⟩

theorem session_machine_threeFrames :
    (session wordLayout directoryArraySize evictingRequests).value (SmallPool.handler 3 Fault)
      { pool := threeFrames } =
    .ok [.inserted true, .inserted true, .done, .done, .found true [7], .removed true,
      .found false []] := by
  obtain ⟨final, hrun, hnext⟩ := exists_run_evictingRequests
  refine session_machine wordLayout (BufferPoolManagerInstance.frames_create 1 0 _)
    ⟨rfl, by decide⟩ ?_ (by decide) (by decide +kernel) hrun ?_
  · rintro pageId frameId ⟨⟩
  · rw [hnext]
    decide

theorem session_pairSet_threeFrames : ∃ responses pairs,
    (session wordLayout directoryArraySize evictingRequests).value (SmallPool.handler 3 Fault)
        { pool := threeFrames } = .ok responses ∧
      wordTable.scheme.pairSet.run ∅ (evictingRequests.filterMap Request.call?) =
        .ok (responses.filterMap Response.outcome?, pairs) := by
  obtain ⟨last, hlast, hnext⟩ := exists_run_evictingRequests
  refine session_pairSet wordLayout (BufferPoolManagerInstance.frames_create 1 0 _)
    ⟨rfl, by decide⟩ ?_ (by decide) (by decide +kernel) (by decide +kernel) ?_ ?_
  · rintro pageId frameId ⟨⟩
  · rw [hlast]
    intro herror
    cases herror
  · intro responses final hrun
    rw [hlast] at hrun
    cases hrun
    rw [hnext]
    decide

/-! ## Buckets that are dropped -/

/-- A file from before, in which the third page reads as a bucket with the pair `(5, 9)`. -/
def oldFile : DiskManager where
  bytes i :=
    if i = 8192 ∨ i = 8192 + 62 then 1
    else if i = 8192 + 124 then 5
    else if i = 8192 + 128 then 9
    else 0
  size := 12288

/-- A pool of three frames over the old file. -/
def threeOldFrames : BufferPoolManagerInstance 3 := .create 3 1 0 oldFile

/-- Other pages evict the directory and the buckets that the constructor has made. -/
def droppingRequests : List (Request (BitVec 32) (BitVec 32)) :=
  [.fetchOther 9, .unpinOther 9 false, .fetchOther 10, .unpinOther 10 false, .fetchOther 11,
    .unpinOther 11 false, .getValue 5]

/-- The constructor has unpinned the buckets as clean, so what the file had before is found. -/
theorem droppingRequests_not_agree :
    (session wordLayout directoryArraySize droppingRequests).Guarded (SmallPool.handler 3 Fault)
      (fun s call => s.Serves call ∧ s.Apart call) { pool := threeOldFrames } ∧
    (session wordLayout directoryArraySize droppingRequests).value (KeepingPool.handler Fault)
        (.of threeOldFrames) =
      .ok [.done, .done, .done, .done, .done, .done, .found false []] ∧
    (session wordLayout directoryArraySize droppingRequests).value (SmallPool.handler 3 Fault)
        { pool := threeOldFrames } =
      .ok [.done, .done, .done, .done, .done, .done, .found true [9]] := by
  refine ⟨?_, ?_, ?_⟩
  · decide +kernel
  · decide +kernel
  · decide +kernel

end BusTub.PagedTable
