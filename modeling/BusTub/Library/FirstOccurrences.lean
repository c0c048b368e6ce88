import BusTub.Library.Grouping

/-! # First occurrences

A filter of duplicates lets a row through when it is the same as none of those that were
let through. When only rows that agree count as the same, it lets at least the first row
of each class through, and no other one exactly when rows that agree count as the same.
-/

universe u

namespace FirstOccurrences

variable {ρ : Type u}

/-- The rows that agree with none of those before them. -/
def firstsAfter (agree : ρ → ρ → Prop) [DecidableRel agree] : List ρ → List ρ → List ρ
  | _, [] => []
  | seen, row :: rest =>
      if ∃ other ∈ seen, agree other row then firstsAfter agree (row :: seen) rest
      else row :: firstsAfter agree (row :: seen) rest

/-- The first row of each class of rows that agree. -/
def firsts (agree : ρ → ρ → Prop) [DecidableRel agree] (rows : List ρ) : List ρ :=
  firstsAfter agree [] rows

/-- The rows that are the same as none of those that were kept. -/
def keptAfter (same : ρ → ρ → Bool) : List ρ → List ρ → List ρ
  | _, [] => []
  | kept, row :: rest =>
      if kept.any (same row) then keptAfter same kept rest
      else row :: keptAfter same (kept ++ [row]) rest

/-- On the rows in use, agreement is an equivalence, and sameness a partial one within it. -/
structure Within (same : ρ → ρ → Bool) (agree : ρ → ρ → Prop) (used : ρ → Prop) : Prop where
  partialEquiv : Grouping.PartialEquiv same used
  agree_of_same : ∀ {a b}, used a → used b → same a b → agree a b
  symm : ∀ {a b}, used a → used b → agree a b → agree b a
  trans : ∀ {a b c}, used a → used b → used c → agree a b → agree b c → agree a c

variable {same : ρ → ρ → Bool} {agree : ρ → ρ → Prop} [DecidableRel agree] {used : ρ → Prop}
  {seen kept rows : List ρ}

/-- The first row of each class is kept. -/
theorem length_firstsAfter_le (h : Within same agree used) (hrows : ∀ row ∈ rows, used row)
    (hkept : ∀ row ∈ kept, used row) (hseen : ∀ row ∈ kept, row ∈ seen) :
    (firstsAfter agree seen rows).length ≤ (keptAfter same kept rows).length := by
  induction rows generalizing seen kept with
  | nil => exact Nat.le_refl 0
  | cons row rest ih =>
      have hrow := hrows row List.mem_cons_self
      have hrest := fun other hmem => hrows other (List.mem_cons_of_mem row hmem)
      rw [firstsAfter, keptAfter]
      by_cases hfound : kept.any (same row)
      · obtain ⟨other, hmem, hsame⟩ := List.any_eq_true.mp hfound
        have hagree := h.agree_of_same hrow (hkept other hmem) hsame
        -- a row that is dropped agrees with one seen before, and is no first one either
        have hbefore : ∃ other ∈ seen, agree other row :=
          ⟨other, hseen other hmem, h.symm hrow (hkept other hmem) hagree⟩
        rw [if_pos hbefore, if_pos hfound]
        exact ih hrest hkept fun other hmem => List.mem_cons_of_mem row (hseen other hmem)
      · have hkept' : ∀ other ∈ kept ++ [row], used other :=
          List.forall_mem_append.mpr ⟨hkept, List.forall_mem_singleton.mpr hrow⟩
        have hseen' : ∀ other ∈ kept ++ [row], other ∈ row :: seen :=
          List.forall_mem_append.mpr ⟨fun other hmem => List.mem_cons_of_mem row (hseen other hmem),
            List.forall_mem_singleton.mpr List.mem_cons_self⟩
        have htail := ih hrest hkept' hseen'
        rw [if_neg hfound]
        split
        · rw [List.length_cons]
          omega
        · rw [List.length_cons, List.length_cons]
          omega

/-- What was kept, of what was seen: a seen row that agrees with a kept one is that one, or the
same as it, and every seen row was kept or is the same as a kept one. -/
structure Sieved (same : ρ → ρ → Bool) (agree : ρ → ρ → Prop) (seen kept : List ρ) : Prop where
  subset : ∀ row ∈ kept, row ∈ seen
  covers : ∀ row ∈ seen, row ∈ kept ∨ ∃ other ∈ kept, same row other
  told : ∀ row ∈ seen, ∀ other ∈ kept, agree other row → row = other ∨ same row other

omit [DecidableRel agree] in
/-- A row that is the same as a kept one. -/
theorem Sieved.skip {row other : ρ} (hsieved : Sieved same agree seen kept)
    (h : Within same agree used) (hseen : ∀ row ∈ seen, used row) (hrow : used row)
    (hother : other ∈ kept) (hsame : same row other) :
    Sieved same agree (row :: seen) kept ∧ ∀ before ∈ seen, agree before row → same row before := by
  have hotherSeen := hsieved.subset other hother
  have hotherUsed := hseen other hotherSeen
  have hagree := h.agree_of_same hrow hotherUsed hsame
  have hall : ∀ before ∈ seen, agree before row → same row before := by
    intro before hbefore hbeforeAgree
    have hbeforeUsed := hseen before hbefore
    rcases hsieved.told before hbefore other hother (h.symm hbeforeUsed hotherUsed
      (h.trans hbeforeUsed hrow hotherUsed hbeforeAgree hagree)) with rfl | hsameBefore
    · exact hsame
    · exact h.partialEquiv.trans hrow hotherUsed hbeforeUsed hsame
        (h.partialEquiv.symm hbeforeUsed hotherUsed hsameBefore)
  refine ⟨⟨?_, ?_, ?_⟩, hall⟩
  · exact fun before hbefore => List.mem_cons_of_mem row (hsieved.subset before hbefore)
  · intro before hbefore
    rcases List.mem_cons.mp hbefore with rfl | hbefore
    · exact Or.inr ⟨other, hother, hsame⟩
    · exact hsieved.covers before hbefore
  · intro before hbefore first hfirst hfirstAgree
    rcases List.mem_cons.mp hbefore with rfl | hbefore
    · exact Or.inr (hall first (hsieved.subset first hfirst) hfirstAgree)
    · exact hsieved.told before hbefore first hfirst hfirstAgree

omit [DecidableRel agree] in
/-- A row that agrees with none of those before it. -/
theorem Sieved.keep {row : ρ} (hsieved : Sieved same agree seen kept)
    (h : Within same agree used) (hseen : ∀ row ∈ seen, used row) (hrow : used row)
    (hnew : ¬ ∃ other ∈ seen, agree other row) :
    Sieved same agree (row :: seen) (kept ++ [row]) := by
  refine ⟨?_, ?_, ?_⟩
  · intro before hbefore
    rcases List.mem_append.mp hbefore with hbefore | hbefore
    · exact List.mem_cons_of_mem row (hsieved.subset before hbefore)
    · rw [List.mem_singleton.mp hbefore]
      exact List.mem_cons_self
  · intro before hbefore
    rcases List.mem_cons.mp hbefore with rfl | hbefore
    · exact Or.inl (List.mem_append_right kept List.mem_cons_self)
    · rcases hsieved.covers before hbefore with hkept | ⟨other, hother, hsame⟩
      · exact Or.inl (List.mem_append_left _ hkept)
      · exact Or.inr ⟨other, List.mem_append_left _ hother, hsame⟩
  · intro before hbefore other hother hagree
    rcases List.mem_append.mp hother with hother | hother
    · -- the row kept now agrees with none of the rows before it
      have hotherSeen := hsieved.subset other hother
      rcases List.mem_cons.mp hbefore with rfl | hbefore
      · exact absurd ⟨other, hotherSeen, hagree⟩ hnew
      · exact hsieved.told before hbefore other hother hagree
    · rw [List.mem_singleton.mp hother] at hagree ⊢
      rcases List.mem_cons.mp hbefore with rfl | hbefore
      · exact Or.inl rfl
      · exact absurd ⟨before, hbefore, h.symm hrow (hseen before hbefore) hagree⟩ hnew

theorem keptAfter_eq_firstsAfter_iff (h : Within same agree used)
    (hrows : ∀ row ∈ rows, used row) (hseen : ∀ row ∈ seen, used row)
    (hsieved : Sieved same agree seen kept) :
    keptAfter same kept rows = firstsAfter agree seen rows ↔
      (∀ row ∈ rows, ∀ before ∈ seen, agree before row → same row before) ∧
        rows.Pairwise fun before row => agree before row → same row before := by
  induction rows generalizing seen kept with
  | nil => exact iff_of_true rfl ⟨fun row hmem => absurd hmem List.not_mem_nil, List.Pairwise.nil⟩
  | cons row rest ih =>
      have hrow := hrows row List.mem_cons_self
      have hrest := fun other hmem => hrows other (List.mem_cons_of_mem row hmem)
      have hseen' : ∀ other ∈ row :: seen, used other := by
        intro other hmem
        rcases List.mem_cons.mp hmem with rfl | hmem
        · exact hrow
        · exact hseen other hmem
      -- What the rows after this one must meet.
      have hsplit : (∀ other ∈ row :: rest, ∀ before ∈ seen,
            agree before other → same other before) ∧
          (row :: rest).Pairwise (fun before row => agree before row → same row before) ↔
          (∀ before ∈ seen, agree before row → same row before) ∧
            (∀ other ∈ rest, ∀ before ∈ row :: seen, agree before other → same other before) ∧
            rest.Pairwise fun before row => agree before row → same row before := by
        rw [List.pairwise_cons, List.forall_mem_cons]
        simp only [List.forall_mem_cons]
        constructor
        · rintro ⟨⟨hhead, hbefore⟩, hafter, htail⟩
          exact ⟨hhead, fun other hmem => ⟨hafter other hmem, hbefore other hmem⟩, htail⟩
        · rintro ⟨hhead, hboth, htail⟩
          exact ⟨⟨hhead, fun other hmem => (hboth other hmem).2⟩,
            fun other hmem => (hboth other hmem).1, htail⟩
      rw [hsplit, keptAfter, firstsAfter]
      by_cases hfound : kept.any (same row)
      · obtain ⟨other, hmem, hsame⟩ := List.any_eq_true.mp hfound
        have hother := hseen other (hsieved.subset other hmem)
        have hbefore : ∃ other ∈ seen, agree other row :=
          ⟨other, hsieved.subset other hmem, h.symm hrow hother (h.agree_of_same hrow hother hsame)⟩
        obtain ⟨hsieved', hhead⟩ := hsieved.skip h hseen hrow hmem hsame
        rw [if_pos hfound, if_pos hbefore, ih hrest hseen' hsieved']
        exact (and_iff_right hhead).symm
      · rw [if_neg hfound]
        by_cases hbefore : ∃ other ∈ seen, agree other row
        · -- The row is kept once too often.
          rw [if_pos hbefore]
          refine iff_of_false ?_ ?_
          · intro heq
            have hkept' : ∀ other ∈ kept ++ [row], other ∈ row :: seen :=
              List.forall_mem_append.mpr
                ⟨fun other hmem => List.mem_cons_of_mem row (hsieved.subset other hmem),
                  List.forall_mem_singleton.mpr List.mem_cons_self⟩
            have hle := length_firstsAfter_le h hrest
              (fun other hmem => hseen' other (hkept' other hmem)) hkept'
            rw [← heq, List.length_cons] at hle
            omega
          · rintro ⟨hhead, -⟩
            obtain ⟨other, hmem, hagree⟩ := hbefore
            have hsame := hhead other hmem hagree
            apply hfound
            rcases hsieved.covers other hmem with hkept | ⟨first, hfirst, hsameFirst⟩
            · exact List.any_eq_true.mpr ⟨other, hkept, hsame⟩
            · exact List.any_eq_true.mpr ⟨first, hfirst, h.partialEquiv.trans hrow
                (hseen other hmem) (hseen first (hsieved.subset first hfirst)) hsame hsameFirst⟩
        · rw [if_neg hbefore, List.cons.injEq, ih hrest hseen' (hsieved.keep h hseen hrow hbefore)]
          have hhead : ∀ before ∈ seen, agree before row → same row before :=
            fun before hmem hagree => absurd ⟨before, hmem, hagree⟩ hbefore
          rw [and_iff_right rfl, and_iff_right hhead]

/-- The filter keeps the first row of each class exactly when it takes rows that agree for the
same. -/
theorem keptAfter_eq_firsts_iff (h : Within same agree used) (hrows : ∀ row ∈ rows, used row) :
    keptAfter same [] rows = firsts agree rows ↔
      rows.Pairwise fun before row => agree before row → same row before := by
  have hnone : ∀ row ∈ ([] : List ρ), False := fun row hmem => absurd hmem List.not_mem_nil
  unfold firsts
  rw [keptAfter_eq_firstsAfter_iff h hrows (fun row hmem => (hnone row hmem).elim)
    ⟨fun row hmem => (hnone row hmem).elim, fun row hmem => (hnone row hmem).elim,
      fun row hmem => (hnone row hmem).elim⟩]
  exact and_iff_right fun row _ before hmem => (hnone before hmem).elim

end FirstOccurrences
