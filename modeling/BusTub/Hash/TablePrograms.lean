import BusTub.Hash.PoolPageIds

/-! # The operations of the paged table

Over a pool that never evicts, the programs of the table do to the bytes of their pages what
the operations do to the table, and leave every page with the pins that it had.
-/

namespace BusTub.PagedTable

open DirectoryPage (raise)
open ExtendibleHashTable (keyToDirectoryIndex keyToPageId redirectAll splitDirectory)
open PoolM

variable {K V : Type} {c : TableConfig K V}

/-- The pages of the pool hold the table; the client has the pins `held`. -/
structure Has (layout : PairLayout c) (first : PageId) (instances : Nat)
    (t : ExtendibleHashTable K V) (held : List PageId) (k : KeepingPool) : Prop where
  directory : ∃ data, k.pages first = some data ∧
    DirectoryPage.ofData data = t.directory.mapIds (poolPageId first instances)
  bucket : ∀ pageId, 0 < pageId → pageId < t.nextPageId →
    ∃ data, k.pages (poolPageId first instances pageId) = some data ∧
      BucketPage.ofData layout data = t.buckets pageId
  pins : ∀ pageId, k.pins pageId = held.count pageId
  nextPageId : k.nextPageId = poolPageId first instances t.nextPageId
  numInstances : k.numInstances = instances

/-- The program returns. -/
abbrev Leads {α : Type} (pre : KeepingPool → Prop) (program : TableM α)
    (post : α → KeepingPool → Prop) : Prop :=
  program.Meets (KeepingPool.handler Fault) (fun _ _ => True) pre post

variable {layout : PairLayout c} {first : PageId} {instances : Nat}
  {t : ExtendibleHashTable K V} {held held' : List PageId}

/-! ## The calls of the pool -/

theorem Has.perm {k : KeepingPool} (h : Has layout first instances t held k)
    (hperm : held.Perm held') : Has layout first instances t held' k :=
  ⟨h.directory, h.bucket, fun pageId => (h.pins pageId).trans (hperm.count_eq pageId),
    h.nextPageId, h.numInstances⟩

theorem fetch_leads {pageId : PageId}
    (hpage : ∀ k, Has layout first instances t held k → ∃ data, k.pages pageId = some data) :
    Leads (Has layout first instances t held) (PoolM.fetchPage pageId)
      fun _ => Has layout first instances t (pageId :: held) := by
  refine Program.meets_perform fun k hk => ⟨trivial, ?_⟩
  obtain ⟨data, hdata⟩ := hpage k hk
  have hstep : (KeepingPool.handler Fault).step k (.fetchPage pageId) =
      .ok ((), { k with pins := Function.update k.pins pageId (k.pins pageId + 1) }) := by
    simp only [KeepingPool.handler, hdata]
  refine ⟨(), _, hstep, hk.directory, hk.bucket, fun other => ?_, hk.nextPageId, hk.numInstances⟩
  by_cases heq : other = pageId
  · subst heq
    rw [List.count_cons_self, ← hk.pins other]
    exact Function.update_self _ _ _
  · rw [List.count_cons_of_ne (Ne.symm heq), ← hk.pins other]
    exact Function.update_of_ne heq _ _

theorem fetchDirectory_leads : Leads (Has layout first instances t held)
    (PoolM.fetchPage first) fun _ => Has layout first instances t (first :: held) :=
  fetch_leads fun _ hk => hk.directory.imp fun _ hdata => hdata.1

theorem fetchBucket_leads {pageId : PageId} (hid : 0 < pageId ∧ pageId < t.nextPageId) :
    Leads (Has layout first instances t held)
      (PoolM.fetchPage (poolPageId first instances pageId))
      fun _ => Has layout first instances t (poolPageId first instances pageId :: held) :=
  fetch_leads fun _ hk => (hk.bucket pageId hid.1 hid.2).imp fun _ hdata => hdata.1

/-- The pin that was taken last is given back. -/
theorem unpin_leads {pageId : PageId} (isDirty : Bool) :
    Leads (Has layout first instances t (pageId :: held)) (PoolM.unpinPage pageId isDirty)
      fun _ => Has layout first instances t held := by
  refine Program.meets_perform fun k hk => ⟨trivial, (), _, rfl, hk.directory, hk.bucket,
    fun other => ?_, hk.nextPageId, hk.numInstances⟩
  have hpins := hk.pins other
  by_cases heq : other = pageId
  · subst heq
    rw [List.count_cons_self] at hpins
    refine (Function.update_self _ _ _).trans ?_
    rw [hpins, Nat.add_sub_cancel]
  · rw [List.count_cons_of_ne (Ne.symm heq)] at hpins
    exact (Function.update_of_ne heq _ _).trans hpins

theorem access_step {k : KeepingPool} {pageId : PageId} {data : PageData}
    (hk : Has layout first instances t held k) (hheld : pageId ∈ held)
    (hdata : k.pages pageId = some data) (change : PageData → PageData) :
    (KeepingPool.handler Fault).step k (.access pageId change) =
      .ok (data, { k with pages := Function.update k.pages pageId (some (change data)) }) := by
  have hpins : k.pins pageId ≠ 0 := by
    rw [hk.pins pageId]
    exact (List.count_pos_iff.mpr hheld).ne'
  simp only [KeepingPool.handler, hdata, if_neg hpins]

theorem read_step {k : KeepingPool} {pageId : PageId} {data : PageData}
    (hk : Has layout first instances t held k) (hheld : pageId ∈ held)
    (hdata : k.pages pageId = some data) :
    (KeepingPool.handler Fault).step k (.access pageId id) = .ok (data, k) := by
  have hsame : Function.update k.pages pageId (some (id data)) = k.pages :=
    Function.update_eq_self_iff.mpr hdata.symm
  rw [access_step hk hheld hdata, hsame]

theorem readDirectory_leads (hheld : first ∈ held) :
    Leads (Has layout first instances t held) (readDirectory first) fun d k =>
      Has layout first instances t held k ∧
        d = t.directory.mapIds (poolPageId first instances) := by
  refine Program.meets_call (fun data k => Has layout first instances t held k ∧
    .ofData data = t.directory.mapIds (poolPageId first instances))
      (fun k hk => ⟨trivial, ?_⟩) fun _ => Program.meets_done fun _ hk => hk
  obtain ⟨data, hdata, hdirectory⟩ := hk.directory
  exact ⟨data, k, read_step hk hheld hdata, hk, hdirectory⟩

theorem readBucket_leads {pageId : PageId} (hid : 0 < pageId ∧ pageId < t.nextPageId)
    (hheld : poolPageId first instances pageId ∈ held) :
    Leads (Has layout first instances t held)
      (readBucket layout (poolPageId first instances pageId)) fun bucket k =>
        Has layout first instances t held k ∧ bucket = t.buckets pageId := by
  refine Program.meets_call (fun data k => Has layout first instances t held k ∧
    .ofData layout data = t.buckets pageId)
      (fun k hk => ⟨trivial, ?_⟩) fun _ => Program.meets_done fun _ hk => hk
  obtain ⟨data, hdata, hbucket⟩ := hk.bucket pageId hid.1 hid.2
  exact ⟨data, k, read_step hk hheld hdata, hk, hbucket⟩

section Changes

variable (hinstances : 0 < instances)

include hinstances

/-- The bytes of the directory change, and its fields as `d` says. -/
theorem changeDirectory_leads (hheld : first ∈ held) {change : PageData → PageData}
    (d : DirectoryPage)
    (hchange : ∀ data, .ofData data = t.directory.mapIds (poolPageId first instances) →
      .ofData (change data) = d.mapIds (poolPageId first instances)) :
    Leads (Has layout first instances t held) (modifyPage first change)
      fun _ => Has layout first instances { t with directory := d } held := by
  refine Program.meets_call (fun _ => Has layout first instances { t with directory := d } held)
    (fun k hk => ⟨trivial, ?_⟩) fun _ => Program.meets_done fun _ hk => hk
  obtain ⟨data, hdata, hdirectory⟩ := hk.directory
  refine ⟨data, _, access_step hk hheld hdata change,
    ⟨_, Function.update_self _ _ _, hchange data hdirectory⟩, fun pageId hpos hlt => ?_,
    hk.pins, hk.nextPageId, hk.numInstances⟩
  obtain ⟨bytes, hbytes, hbucket⟩ := hk.bucket pageId hpos hlt
  have hne := ne_of_gt (lt_poolPageId first hinstances hpos)
  exact ⟨bytes, (Function.update_of_ne hne _ _).trans hbytes, hbucket⟩

theorem modifyDirectory_leads (hheld : first ∈ held)
    {change : DirectoryPage → DirectoryPage} (d : DirectoryPage)
    (hchange : change (t.directory.mapIds (poolPageId first instances)) =
      d.mapIds (poolPageId first instances))
    (hstorable : (d.mapIds (poolPageId first instances)).Storable (2 ^ 31)) :
    Leads (Has layout first instances t held) (modifyDirectory first change)
      fun _ => Has layout first instances { t with directory := d } held := by
  refine changeDirectory_leads hinstances hheld d fun data hdirectory => ?_
  rw [hdirectory, hchange]
  exact DirectoryPage.ofData_store data hstorable

variable (hfirst : 0 ≤ first)

include hfirst

theorem storeBucket_leads {pageId : PageId} (hid : 0 < pageId ∧ pageId < t.nextPageId)
    (hheld : poolPageId first instances pageId ∈ held) {page : BucketPage K V}
    (hpage : page.Storable c.bucketArraySize c.zero) :
    Leads (Has layout first instances t held)
      (storeBucket layout (poolPageId first instances pageId) page)
      fun _ => Has layout first instances (t.setBucket pageId page) held := by
  refine Program.meets_call (fun _ => Has layout first instances (t.setBucket pageId page) held)
    (fun k hk => ⟨trivial, ?_⟩) fun _ => Program.meets_done fun _ hk => hk
  obtain ⟨data, hdata, -⟩ := hk.bucket pageId hid.1 hid.2
  obtain ⟨bytes, hbytes, hdirectory⟩ := hk.directory
  have hne := ne_of_lt (lt_poolPageId first hinstances hid.1)
  refine ⟨data, _, access_step hk hheld hdata _,
    ⟨bytes, (Function.update_of_ne hne _ _).trans hbytes, hdirectory⟩, fun other hpos hlt => ?_,
    hk.pins, hk.nextPageId, hk.numInstances⟩
  unfold ExtendibleHashTable.setBucket
  dsimp only
  by_cases heq : other = pageId
  · subst heq
    rw [Function.update_self, Function.update_self]
    exact ⟨_, rfl, BucketPage.ofData_store layout hpage data⟩
  · obtain ⟨stored, hstored, hbucket⟩ := hk.bucket other hpos hlt
    have hother := (poolPageId_injective hfirst hinstances).ne heq
    rw [Function.update_of_ne hother, Function.update_of_ne heq]
    exact ⟨stored, hstored, hbucket⟩

theorem newPage_leads (hpos : 0 < t.nextPageId)
    (hids : poolPageId first instances (t.nextPageId + 1) < 2 ^ 31) :
    Leads (Has layout first instances t held) newPage fun pageId k =>
      Has layout first instances (t.newPage c).2
        (poolPageId first instances t.nextPageId :: held) k ∧
        pageId = poolPageId first instances t.nextPageId := by
  refine Program.meets_perform fun k hk => ⟨trivial, _, _, rfl, ⟨?_, ?_, ?_, ?_, ?_⟩,
    hk.nextPageId⟩
  · obtain ⟨bytes, hbytes, hdirectory⟩ := hk.directory
    have hne := ne_of_lt (lt_poolPageId first hinstances hpos)
    rw [← hk.nextPageId] at hne
    exact ⟨bytes, (Function.update_of_ne hne _ _).trans hbytes, hdirectory⟩
  · intro pageId hpageId hlt
    unfold ExtendibleHashTable.newPage
    dsimp only
    rw [hk.nextPageId]
    by_cases heq : pageId = t.nextPageId
    · subst heq
      rw [Function.update_self, Function.update_self]
      exact ⟨_, rfl, BucketPage.ofData_zero layout⟩
    · have hbefore : pageId < t.nextPageId := lt_of_le_of_ne (Int.lt_add_one_iff.mp hlt) heq
      obtain ⟨stored, hstored, hbucket⟩ := hk.bucket pageId hpageId hbefore
      have hother := (poolPageId_injective hfirst hinstances).ne heq
      rw [Function.update_of_ne hother, Function.update_of_ne heq]
      exact ⟨stored, hstored, hbucket⟩
  · intro other
    have hpins := hk.pins other
    dsimp only
    rw [hk.nextPageId]
    by_cases heq : other = poolPageId first instances t.nextPageId
    · subst heq
      rw [List.count_cons_self, Function.update_self, hpins]
    · rw [List.count_cons_of_ne (Ne.symm heq), Function.update_of_ne heq, hpins]
  · have hnonneg := poolPageId_nonneg instances hfirst
      (le_of_lt (lt_trans hpos (Int.lt_succ t.nextPageId)))
    have hnext : toInt32 (k.nextPageId + k.numInstances) =
        poolPageId first instances (t.nextPageId + 1) := by
      rw [hk.nextPageId, hk.numInstances, ← poolPageId_succ hpos]
      exact toInt32_of_bounds (le_trans (by decide) hnonneg) hids
    exact hnext
  · exact hk.numInstances

end Changes

/-! ## Lookup -/

open ExtendibleHashTable (keyToDirectoryIndex_lt) in
theorem bucketPageId_key (h : t.FitsPages c) (key : K) :
    0 < keyToPageId c key t.directory ∧ keyToPageId c key t.directory < t.nextPageId :=
  h.bucketPageId (keyToDirectoryIndex_lt key t.directory)

theorem getValue_leads (h : t.FitsPages c) (key : K) :
    Leads (Has layout first instances t []) (getValue layout first key) fun result k =>
      Has layout first instances t [] k ∧ result = t.getValue c key := by
  have hid := bucketPageId_key h key
  refine fetchDirectory_leads.bind fun _ => ?_
  refine (readDirectory_leads List.mem_cons_self).bind fun d => ?_
  refine Program.meets_of_fact fun hd => ?_
  subst hd
  refine (fetchBucket_leads hid).bind fun _ => ?_
  refine (readBucket_leads hid List.mem_cons_self).bind fun bucket => ?_
  refine Program.meets_of_fact fun hbucket => ?_
  subst hbucket
  refine (unpin_leads false).bind fun _ => ?_
  refine (unpin_leads false).bind fun _ => ?_
  exact Program.meets_done fun k hk => ⟨hk, rfl⟩

theorem getGlobalDepth_leads :
    Leads (Has layout first instances t []) (getGlobalDepth first) fun result k =>
      Has layout first instances t [] k ∧ result = t.directory.globalDepth := by
  refine fetchDirectory_leads.bind fun _ => ?_
  refine (readDirectory_leads List.mem_cons_self).bind fun d => ?_
  refine Program.meets_of_fact fun hd => ?_
  subst hd
  refine (unpin_leads false).bind fun _ => ?_
  exact Program.meets_done fun k hk => ⟨hk, rfl⟩

theorem verify_leads (hfirst : 0 ≤ first) (hinstances : 0 < instances)
    (hholds : verifyIntegrity t.directory) :
    Leads (Has layout first instances t []) (verify first)
      fun _ => Has layout first instances t [] := by
  refine fetchDirectory_leads.bind fun _ => ?_
  refine (readDirectory_leads List.mem_cons_self).bind fun d => ?_
  refine Program.meets_of_fact fun hd => ?_
  subst hd
  rw [DirectoryPage.verifyIntegrity_mapIds _
    (poolPageId_injective hfirst hinstances), if_pos hholds]
  exact unpin_leads false

/-! ## Merges -/

section Operations

variable (hfirst : 0 ≤ first) (hinstances : 0 < instances)

include hfirst hinstances

/-- A directory that fits its page under the numbering of the table does under that of the pool. -/
theorem storable_mapIds {limit : PageId} {d : DirectoryPage} (h : d.Storable limit)
    (hids : poolPageId first instances limit < 2 ^ 31) :
    (d.mapIds (poolPageId first instances)).Storable (2 ^ 31) :=
  (h.mapIds hfirst hinstances).mono (le_of_lt hids)

theorem mergeTurn_leads (h : t.FitsPages c) {i : Nat} (hi : i < t.directory.size)
    (hids : poolPageId first instances t.nextPageId < 2 ^ 31) (hheld : first ∈ held) :
    Leads (Has layout first instances t held)
      (mergeTurn (c := c) first i (t.buckets (t.directory.getBucketPageId i)))
      fun _ => Has layout first instances (t.mergeTurn c i) held := by
  have hfits := (h.mergeTurn hi).1.directory.storable
  rw [(h.mergeTurn hi).2] at hfits
  have htable : t.mergeTurn c i = { t with directory := (t.mergeTurn c i).directory } := by
    unfold ExtendibleHashTable.mergeTurn
    dsimp only
    split
    · rfl
    · rfl
  rw [htable]
  refine modifyDirectory_leads hinstances hheld _ ?_ (storable_mapIds hfirst hinstances hfits hids)
  by_cases hmerge : t.directory.getLocalDepth i > 1 ∧
      (t.buckets (t.directory.getBucketPageId i)).isEmpty c.bucketArraySize
  · have hturn : (t.mergeTurn c i).directory = t.directory.mergeEmpty i := by
      unfold ExtendibleHashTable.mergeTurn
      dsimp only
      rw [if_pos hmerge]
      rfl
    rw [hturn, ← DirectoryPage.mergeEmpty_mapIds _
      (poolPageId_injective hfirst hinstances)]
    exact if_pos hmerge
  · have hturn : t.mergeTurn c i = t := if_neg hmerge
    rw [hturn]
    exact if_neg hmerge

theorem mergeLoop_leads (h : t.FitsPages c)
    (hids : poolPageId first instances t.nextPageId < 2 ^ 31) (fuel i : Nat) :
    Leads (Has layout first instances t [first]) (mergeLoop layout first fuel i)
      fun _ => Has layout first instances (ExtendibleHashTable.mergeLoop c fuel i t) [first] := by
  induction fuel generalizing t i with
  | zero => exact Program.meets_done fun k hk => hk
  | succ fuel ih =>
      unfold mergeLoop ExtendibleHashTable.mergeLoop
      refine (readDirectory_leads List.mem_cons_self).bind fun d => ?_
      refine Program.meets_of_fact fun hd => ?_
      subst hd
      by_cases hend : i ≥ t.directory.size
      · have hend' : i ≥ (t.directory.mapIds (poolPageId first instances)).size := hend
        rw [if_pos hend, if_pos hend']
        exact Program.meets_done fun k hk => hk
      · have hend' : ¬ i ≥ (t.directory.mapIds (poolPageId first instances)).size := hend
        have hi := Nat.lt_of_not_le hend
        have hid := h.bucketPageId hi
        obtain ⟨hturn, hnext⟩ := h.mergeTurn hi
        rw [if_neg hend, if_neg hend']
        refine (fetchBucket_leads hid).bind fun _ => ?_
        refine (readBucket_leads hid List.mem_cons_self).bind fun bucket => ?_
        refine Program.meets_of_fact fun hbucket => ?_
        subst hbucket
        refine (mergeTurn_leads hfirst hinstances h hi hids
          (List.mem_cons_of_mem _ List.mem_cons_self)).bind fun _ => ?_
        refine (unpin_leads false).bind fun _ => ?_
        exact ih hturn (by rw [hnext]; exact hids) (i + 1)

theorem merge_leads (h : t.FitsPages c)
    (hids : poolPageId first instances t.nextPageId < 2 ^ 31) :
    Leads (Has layout first instances t []) (merge layout first)
      fun _ => Has layout first instances (t.merge c) [] := by
  refine fetchDirectory_leads.bind fun _ => ?_
  refine (readDirectory_leads List.mem_cons_self).bind fun d => ?_
  refine Program.meets_of_fact fun hd => ?_
  subst hd
  refine (mergeLoop_leads hfirst hinstances h hids _ 0).bind fun _ => ?_
  exact unpin_leads true

variable [DecidableEq V]

theorem remove_leads (h : t.FitsPages c) (hids : poolPageId first instances t.nextPageId < 2 ^ 31)
    (key : K) (value : V) :
    Leads (Has layout first instances t []) (remove layout first key value) fun result k =>
      Has layout first instances (t.remove c key value).2 [] k ∧
        result = (t.remove c key value).1 := by
  have hid := bucketPageId_key h key
  have hstorable := (h.bucket (keyToPageId c key t.directory)).remove c.scheme key value
  refine fetchDirectory_leads.bind fun _ => ?_
  refine (readDirectory_leads List.mem_cons_self).bind fun d => ?_
  refine Program.meets_of_fact fun hd => ?_
  subst hd
  refine (fetchBucket_leads hid).bind fun _ => ?_
  refine (readBucket_leads hid List.mem_cons_self).bind fun bucket => ?_
  refine Program.meets_of_fact fun hbucket => ?_
  subst hbucket
  unfold ExtendibleHashTable.remove
  dsimp only
  generalize (t.buckets (keyToPageId c key t.directory)).remove c.scheme c.bucketArraySize key
    value = removed at hstorable ⊢
  obtain ⟨success, page⟩ := removed
  have hfits := h.setBucket (keyToPageId c key t.directory) hstorable
  refine (storeBucket_leads hinstances hfirst hid List.mem_cons_self hstorable).bind fun _ => ?_
  refine (unpin_leads success).bind fun _ => ?_
  refine (unpin_leads false).bind fun _ => ?_
  dsimp only
  by_cases hempty : success ∧ page.isEmpty c.bucketArraySize
  · rw [if_pos hempty, if_pos hempty]
    refine (merge_leads hfirst hinstances hfits hids).bind fun _ => ?_
    exact Program.meets_done fun k hk => ⟨hk, rfl⟩
  · rw [if_neg hempty, if_neg hempty]
    exact Program.meets_done fun k hk => ⟨hk, rfl⟩

/-! ## Splits -/

/-- A full bucket is split while the client has the pins of the bucket and the directory. -/
theorem split_leads (h : t.FitsPages c) {b : Nat} (hb : b < t.directory.size)
    (hfull : (t.buckets (t.directory.bucketPageIds b)).isFull c.bucketArraySize)
    {final : ExtendibleHashTable K V} (hsplit : t.split c b = .ok final)
    (hids : poolPageId first instances final.nextPageId < 2 ^ 31) :
    Leads (Has layout first instances t
        [poolPageId first instances (t.directory.getBucketPageId b), first])
      (split layout first b (poolPageId first instances (t.directory.getBucketPageId b)))
      fun _ => Has layout first instances final
        [poolPageId first instances (t.directory.getBucketPageId b), first] := by
  have hid := h.bucketPageId hb
  obtain ⟨hroom, pages, hloop, hfinal⟩ := ExtendibleHashTable.split_ok hsplit
  have hfits := (h.split hb hfull hsplit).1.directory.storable
  rw [(h.split hb hfull hsplit).2] at hids hfits
  obtain ⟨hbucket, himage⟩ := h.split_pages hfull hloop
  have hbefore : poolPageId first instances t.nextPageId < 2 ^ 31 :=
    lt_trans (poolPageId_lt hfirst hinstances (Int.lt_succ _)) hids
  have hnew : 0 < t.nextPageId ∧ t.nextPageId < t.nextPageId + 1 := ⟨h.pos, Int.lt_succ _⟩
  have hold : 0 < t.directory.getBucketPageId b ∧
      t.directory.getBucketPageId b < t.nextPageId + 1 := ⟨hid.1, lt_trans hid.2 hnew.2⟩
  have hraise := storable_mapIds hfirst hinstances (h.directory.storable_raise hb) hbefore
  have hpair := storable_mapIds hfirst hinstances
    (h.directory.storable_splitDirectory hb hroom h.pos) hids
  rw [hfinal] at hfits ⊢
  -- the local depth of the bucket is raised
  refine (readDirectory_leads (List.mem_cons_of_mem _ List.mem_cons_self)).bind fun d => ?_
  refine Program.meets_of_fact fun hd => ?_
  subst hd
  have hroom' : ¬ ((t.directory.mapIds (poolPageId first instances)).getLocalDepth b =
      (t.directory.mapIds (poolPageId first instances)).globalDepth ∧
      directoryArraySize < DirectoryPage.pow 2
        ((t.directory.mapIds (poolPageId first instances)).globalDepth + 1)) := hroom
  rw [if_neg hroom']
  refine (modifyDirectory_leads hinstances (List.mem_cons_of_mem _ List.mem_cons_self)
    (t.directory.raise b) (DirectoryPage.raise_mapIds _ _ b) hraise).bind fun _ => ?_
  refine (readDirectory_leads (List.mem_cons_of_mem _ List.mem_cons_self)).bind fun d => ?_
  refine Program.meets_of_fact fun hd => ?_
  subst hd
  have hindex : ((t.directory.raise b).mapIds (poolPageId first instances)).getSplitImageIndex b =
      LowBits.flip (t.directory.localDepths b) b := DirectoryPage.getSplitImageIndex_raise _ b
  have hdepth : ((t.directory.raise b).mapIds (poolPageId first instances)).getLocalDepth b =
      t.directory.localDepths b + 1 := by
    refine (congrFun (DirectoryPage.localDepths_raise t.directory b) b).trans ?_
    rw [Function.update_self]
  dsimp only
  rw [hindex, hdepth]
  -- the split image gets a page
  refine (newPage_leads (t := { t with directory := t.directory.raise b }) hinstances hfirst h.pos
    hids).bind fun splitPageId => ?_
  refine Program.meets_of_fact fun hpage => ?_
  subst hpage
  refine (modifyDirectory_leads hinstances (List.mem_cons_of_mem _ (List.mem_cons_of_mem _
    List.mem_cons_self)) (splitDirectory t.directory b t.nextPageId) ?_ hpair).bind fun _ => ?_
  · refine (congrArg (fun d : DirectoryPage => d.setLocalDepth _ (d.getLocalDepth b))
      (DirectoryPage.setBucketPageId_mapIds _ _ _ _)).trans ?_
    rw [← DirectoryPage.getSplitImageIndex_raise]
    rfl
  refine (readBucket_leads hold (List.mem_cons_of_mem _ List.mem_cons_self)).bind fun bucket => ?_
  refine Program.meets_of_fact fun hread => ?_
  have hsame : bucket = t.buckets (t.directory.bucketPageIds b) :=
    hread.trans (Function.update_of_ne (ne_of_lt hid.2) _ _)
  subst hsame
  refine (readBucket_leads hnew List.mem_cons_self).bind fun splitPage => ?_
  refine Program.meets_of_fact fun hread => ?_
  have hzeroed : splitPage = .zeroed c.zero := hread.trans (Function.update_self _ _ _)
  subst hzeroed
  -- the pairs are rehashed and the directory is redirected
  rw [hloop]
  refine (storeBucket_leads hinstances hfirst hold (List.mem_cons_of_mem _ List.mem_cons_self)
    hbucket).bind fun _ => ?_
  refine (storeBucket_leads hinstances hfirst hnew List.mem_cons_self himage).bind fun _ => ?_
  refine (unpin_leads true).bind fun _ => ?_
  refine (modifyDirectory_leads hinstances (List.mem_cons_of_mem _ List.mem_cons_self) _
    (DirectoryPage.redirectAll_mapIds _ _ _ _)
    (storable_mapIds hfirst hinstances hfits hids)).bind fun _ => ?_
  exact Program.meets_done fun k hk => hk

/-! ## Insertion -/

/-- The turns of the loop, with the pin of the directory. -/
theorem splitInsertLoop_leads (h : t.FitsPages c) {key : K} {value : V} {fuel : Nat} {success : Bool}
    {final : ExtendibleHashTable K V}
    (hloop : ExtendibleHashTable.splitInsertLoop c key value fuel t = .ok (success, final))
    (hids : poolPageId first instances final.nextPageId < 2 ^ 31) (isGrowing : Bool) :
    Leads (Has layout first instances t [first])
      (splitInsertLoop layout first key value fuel isGrowing) fun result k =>
        Has layout first instances final [first] k ∧ result.1 = success := by
  induction fuel generalizing t isGrowing with
  | zero => cases hloop
  | succ fuel ih =>
      have hid := bucketPageId_key h key
      have hlt := ExtendibleHashTable.keyToDirectoryIndex_lt (c := c) key t.directory
      refine (readDirectory_leads List.mem_cons_self).bind fun d => ?_
      refine Program.meets_of_fact fun hd => ?_
      subst hd
      refine (fetchBucket_leads hid).bind fun _ => ?_
      refine (readBucket_leads hid List.mem_cons_self).bind fun bucket => ?_
      refine Program.meets_of_fact fun hbucket => ?_
      subst hbucket
      by_cases hfull : (t.buckets (keyToPageId c key t.directory)).isFull c.bucketArraySize
      · rw [if_pos hfull]
        cases hsplit : t.split c (keyToDirectoryIndex c key t.directory) with
        | error fault =>
            unfold ExtendibleHashTable.splitInsertLoop at hloop
            dsimp only at hloop
            rw [if_pos hfull, hsplit] at hloop
            cases hloop
        | ok middle =>
            rw [ExtendibleHashTable.splitInsertLoop_of_split key value fuel hfull hsplit] at hloop
            have hmiddle := (h.split hlt hfull hsplit).1
            have hle := (hmiddle.splitInsertLoop hloop).2
            have hbefore : poolPageId first instances middle.nextPageId < 2 ^ 31 :=
              lt_of_le_of_lt (poolPageId_le hfirst hinstances hle) hids
            refine (split_leads hfirst hinstances h hlt hfull hsplit hbefore).bind fun grows => ?_
            refine (unpin_leads true).bind fun _ => ?_
            exact ih hmiddle hloop (isGrowing || grows)
      · unfold ExtendibleHashTable.splitInsertLoop at hloop
        dsimp only at hloop
        rw [if_neg hfull] at hloop ⊢
        cases hloop
        refine (storeBucket_leads hinstances hfirst hid List.mem_cons_self
          ((h.bucket _).insert _ _ _)).bind fun _ => ?_
        refine (unpin_leads true).bind fun _ => ?_
        exact Program.meets_done fun k hk => ⟨hk, rfl⟩

theorem insert_leads (h : t.FitsPages c) {key : K} {value : V} {success : Bool}
    {final : ExtendibleHashTable K V} (hinsert : t.insert c key value = .ok (success, final))
    (hids : poolPageId first instances final.nextPageId < 2 ^ 31) :
    Leads (Has layout first instances t [])
      (insert layout first directoryArraySize key value) fun result k =>
        Has layout first instances final [] k ∧ result = success := by
  have hid := bucketPageId_key h key
  refine fetchDirectory_leads.bind fun _ => ?_
  refine (readDirectory_leads List.mem_cons_self).bind fun d => ?_
  refine Program.meets_of_fact fun hd => ?_
  subst hd
  refine (fetchBucket_leads hid).bind fun _ => ?_
  refine (readBucket_leads hid List.mem_cons_self).bind fun bucket => ?_
  refine Program.meets_of_fact fun hbucket => ?_
  subst hbucket
  by_cases hfull : (t.buckets (keyToPageId c key t.directory)).isFull c.bucketArraySize
  · rw [ExtendibleHashTable.insert_of_full key value hfull] at hinsert
    rw [if_pos hfull]
    refine (unpin_leads false).bind fun _ => ?_
    refine (unpin_leads false).bind fun _ => ?_
    refine fetchDirectory_leads.bind fun _ => ?_
    refine (splitInsertLoop_leads hfirst hinstances h hinsert hids false).bind fun result => ?_
    refine Program.meets_of_fact fun hsuccess => ?_
    refine (unpin_leads result.2).bind fun _ => ?_
    exact Program.meets_done fun k hk => ⟨hk, hsuccess⟩
  · rw [ExtendibleHashTable.insert_of_room key value hfull] at hinsert
    rw [if_neg hfull]
    cases hinsert
    refine (storeBucket_leads hinstances hfirst hid List.mem_cons_self
      ((h.bucket _).insert _ _ _)).bind fun _ => ?_
    refine (unpin_leads _).bind fun _ => ?_
    refine (unpin_leads false).bind fun _ => ?_
    exact Program.meets_done fun k hk => ⟨hk, rfl⟩

end Operations

/-! ## Construction -/

/-- A table that has a page for its directory only. -/
def empty (c : TableConfig K V) : ExtendibleHashTable K V where
  directory := {}
  buckets := fun _ => .zeroed c.zero
  nextPageId := 1

/-- The first page is that of the directory. -/
theorem newDirectory_leads (layout : PairLayout c) {k : KeepingPool} (hfirst : 0 ≤ k.nextPageId)
    (hpins : ∀ pageId, k.pins pageId = 0)
    (hids : poolPageId k.nextPageId k.numInstances 1 < 2 ^ 31) :
    Leads (fun start => start = k) newPage fun pageId final =>
      Has layout k.nextPageId k.numInstances (empty c) [k.nextPageId] final ∧
        pageId = k.nextPageId := by
  refine Program.meets_perform fun start hstart => ⟨trivial, _, _, rfl, ?_⟩
  subst hstart
  have hone : poolPageId start.nextPageId start.numInstances 1 =
      start.nextPageId + start.numInstances := by
    rw [poolPageId_of_pos Int.one_pos, Int.one_mul]
  refine ⟨⟨⟨_, Function.update_self _ _ _, DirectoryPage.ofData_zero⟩, fun pageId hpos hlt => ?_,
    fun other => ?_, ?_, rfl⟩, rfl⟩
  · exact absurd hlt (not_lt.mpr (Int.add_one_le_of_lt hpos))
  · dsimp only
    by_cases heq : other = start.nextPageId
    · rw [heq, Function.update_self, hpins, List.count_singleton_self]
    · rw [Function.update_of_ne heq, hpins, List.count_singleton, beq_eq_false_iff_ne.mpr
        (Ne.symm heq)]
      rfl
  · rw [hone] at hids
    have hnonneg : 0 ≤ start.nextPageId + start.numInstances :=
      Int.add_nonneg hfirst (Int.natCast_nonneg _)
    exact (toInt32_of_bounds (le_trans (by decide) hnonneg) hids).trans hone.symm

/-- The constructor, over a pool of which the table has no page yet. -/
theorem create_leads (layout : PairLayout c) {k : KeepingPool} (hfirst : 0 ≤ k.nextPageId)
    (hinstances : 0 < k.numInstances) (hpins : ∀ pageId, k.pins pageId = 0)
    (hids : poolPageId k.nextPageId k.numInstances 3 < 2 ^ 31) :
    Leads (fun start => start = k) create fun directoryPageId final =>
      Has layout k.nextPageId k.numInstances (.create c) [] final ∧
        directoryPageId = k.nextPageId := by
  have hone : poolPageId k.nextPageId k.numInstances 1 < 2 ^ 31 :=
    lt_of_le_of_lt (poolPageId_le hfirst hinstances (by decide)) hids
  have htwo : poolPageId k.nextPageId k.numInstances 2 < 2 ^ 31 :=
    lt_of_le_of_lt (poolPageId_le hfirst hinstances (by decide)) hids
  refine (newDirectory_leads layout hfirst hpins hone).bind fun directoryPageId => ?_
  refine Program.meets_of_fact fun hpage => ?_
  subst hpage
  refine (newPage_leads (t := empty c) hinstances hfirst Int.one_pos htwo).bind fun bucket0PageId => ?_
  refine Program.meets_of_fact fun hpage => ?_
  subst hpage
  refine (newPage_leads (t := ((empty c).newPage c).2) hinstances hfirst two_pos
    hids).bind fun bucket1PageId => ?_
  refine Program.meets_of_fact fun hpage => ?_
  subst hpage
  have hheld : ∀ a b : PageId, k.nextPageId ∈ [a, b, k.nextPageId] := fun a b => by simp
  refine (modifyDirectory_leads hinstances (hheld _ _)
    (ExtendibleHashTable.create c).directory ?_
      (storable_mapIds hfirst hinstances (ExtendibleHashTable.fitsPages_create c).directory.storable
        hids)).bind fun _ => ?_
  · apply DirectoryPage.ext
    · rfl
    · rfl
    · funext i
      rw [ExtendibleHashTable.directory_create]
      simp only [DirectoryPage.mapIds, DirectoryPage.incrGlobalDepth,
        DirectoryPage.bucketPageIds_setLocalDepth, DirectoryPage.bucketPageIds_setBucketPageId,
        Function.update_apply]
      split_ifs
      · rfl
      · rfl
      · rfl
  refine (changeDirectory_leads hinstances (hheld _ _) (ExtendibleHashTable.create c).directory
    fun data hdata => ?_).bind fun _ => ?_
  · rw [DirectoryPage.ofData_storePageId]
    exact hdata
  have hperm : ∀ a b : PageId, [a, b, k.nextPageId].Perm [k.nextPageId, b, a] := fun a b =>
    List.reverse_perm [k.nextPageId, b, a]
  refine Program.Meets.mono ?_ (fun start hstart => hstart.perm (hperm _ _)) fun _ _ hk => hk
  refine (unpin_leads true).bind fun _ => ?_
  refine (unpin_leads false).bind fun _ => ?_
  refine (unpin_leads false).bind fun _ => ?_
  exact Program.meets_done fun k hk => ⟨hk, rfl⟩

end BusTub.PagedTable
