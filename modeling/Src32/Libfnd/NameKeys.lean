import Src32.Libfnd.NameUtf8
import Mathlib.Data.List.GetD

namespace Src32.Libfnd

open Unicode

/-!
# Equal keys are equal foldings

An iterator goes through the folded text, however it is cut into expansions.  So the
comparison is equality of folded texts, and the hash is one of the folded text.
-/

namespace Casefold

variable (t : Casefold)

/-! ## The table -/

/-- The full case folding of a code point: its row, or itself. -/
def full (cp : Nat) : List Nat :=
  match (t.cfFrom.zip t.cfTo).find? fun row => row.1 = cp with
  | some row => t.expand row.2
  | none => [cp]

theorem rows_length : t.cfTo.length = t.cfFrom.length := by
  unfold cfTo cfFrom
  rw [List.length_append, List.length_append, List.length_map, t.rows]

theorem letters_low : ∀ cp ∈ letters, 0x41 ≤ cp ∧ cp ≤ 0x5A := by decide

theorem cfFrom_sorted : t.cfFrom.Pairwise fun a b => a < b := by
  unfold cfFrom
  rw [List.pairwise_append]
  refine ⟨by decide, t.sorted, fun a low b high => ?_⟩
  have most := (letters_low a low).2
  have least := t.behind b high
  omega

theorem cfFrom_less {i j : Nat} (less : i < j) (inside : j < t.cfFrom.length) : t.cfFrom.getD i 0 < t.cfFrom.getD j 0 := by
  have order := List.pairwise_iff_getElem.mp t.cfFrom_sorted i j (by omega) inside less
  rw [List.getD_eq_getElem _ _ (by omega), List.getD_eq_getElem _ _ inside]
  exact order

theorem cfFrom_unique {i j : Nat} (first : i < t.cfFrom.length) (second : j < t.cfFrom.length)
    (same : t.cfFrom.getD i 0 = t.cfFrom.getD j 0) : i = j := by
  rcases Nat.lt_trichotomy i j with less | equal | more
  · exact absurd same (Nat.ne_of_lt (t.cfFrom_less less second))
  · exact equal
  · exact absurd same (Nat.ne_of_gt (t.cfFrom_less more first))

/-- A row of the table is the folding of its code point. -/
theorem full_row {i : Nat} (inside : i < t.cfFrom.length) : t.full (t.cfFrom.getD i 0) = t.expand (t.cfTo.getD i 0) := by
  unfold full
  have length := t.rows_length
  cases found : (t.cfFrom.zip t.cfTo).find? fun row => row.1 = t.cfFrom.getD i 0 with
  | none =>
    have all := List.find?_eq_none.mp found
    have row : (t.cfFrom.getD i 0, t.cfTo.getD i 0) ∈ t.cfFrom.zip t.cfTo := by
      rw [List.getD_eq_getElem _ _ inside, List.getD_eq_getElem _ _ (by omega)]
      have here : i < (t.cfFrom.zip t.cfTo).length := by
        rw [List.length_zip]
        omega
      have entry := List.getElem_mem here
      rwa [List.getElem_zip] at entry
    exact absurd (decide_eq_true rfl) (all _ row)
  | some row =>
    have same : row.1 = t.cfFrom.getD i 0 := by simpa using List.find?_some found
    obtain ⟨j, below, here⟩ := List.getElem_of_mem (List.mem_of_find?_eq_some found)
    rw [List.length_zip] at below
    rw [List.getElem_zip] at here
    rw [← here, ← List.getD_eq_getElem _ 0 (by omega)] at same
    have equal := t.cfFrom_unique (by omega) inside same
    rw [← here, ← equal, List.getD_eq_getElem t.cfTo _ (by omega)]

theorem full_none {cp : Nat} (absent : ∀ i < t.cfFrom.length, t.cfFrom.getD i 0 ≠ cp) : t.full cp = [cp] := by
  unfold full
  cases found : (t.cfFrom.zip t.cfTo).find? fun row => row.1 = cp with
  | none => rfl
  | some row =>
    have same : row.1 = cp := by simpa using List.find?_some found
    obtain ⟨j, below, here⟩ := List.getElem_of_mem (List.mem_of_find?_eq_some found)
    rw [List.length_zip] at below
    rw [List.getElem_zip] at here
    rw [← here] at same
    refine absurd ?_ (absent j (by omega))
    rw [List.getD_eq_getElem _ _ (by omega)]
    exact same

/-- The binary search finds the row. -/
theorem find_full {cp lo hi : Nat} (most : hi ≤ t.cfFrom.length)
    (bracket : ∀ i < t.cfFrom.length, t.cfFrom.getD i 0 = cp -> lo ≤ i ∧ i < hi) :
    (match t.find cp lo hi with
      | some v => t.expand v
      | none => [cp]) = t.full cp := by
  fun_induction find t cp lo hi with
  | case1 lo hi less here =>
    rw [← here]
    exact (t.full_row (by omega)).symm
  | case2 lo hi less other low ih =>
    refine ih most fun i inside same => ?_
    have range := bracket i inside same
    refine ⟨Nat.lt_of_not_le fun le => ?_, range.2⟩
    rcases Nat.lt_or_eq_of_le le with below | equal
    · have order := t.cfFrom_less below (by omega)
      omega
    · rw [equal] at same
      exact other same
  | case3 lo hi less other high ih =>
    refine ih (by omega) fun i inside same => ?_
    have range := bracket i inside same
    refine ⟨range.1, Nat.lt_of_not_le fun le => ?_⟩
    rcases Nat.lt_or_eq_of_le le with above | equal
    · have order := t.cfFrom_less above inside
      omega
    · rw [← equal] at same
      exact other same
  | case4 lo hi empty =>
    refine (t.full_none fun i inside same => ?_).symm
    have range := bracket i inside same
    omega

/-- The letters of the table are its ASCII rows. -/
theorem full_ascii {cp : Nat} (ascii : cp < 0x80) : t.full cp = [lower cp] := by
  have front : ∀ i < 26, t.cfFrom.getD i 0 = 0x41 + i ∧ t.cfTo.getD i 0 = 0x61 + i := by
    intro i below
    unfold cfFrom cfTo
    rw [List.getD_append _ _ _ _ below, List.getD_append _ _ _ _ below]
    revert i
    decide
  have long : 26 ≤ t.cfFrom.length := by
    unfold cfFrom
    rw [List.length_append]
    exact Nat.le_add_right ..
  by_cases letter : 0x41 ≤ cp ∧ cp ≤ 0x5A
  · have row := front (cp - 0x41) (by omega)
    have folding := @full_row t (cp - 0x41) (by omega)
    rw [row.1, row.2, show 0x41 + (cp - 0x41) = cp by omega] at folding
    have high : (0x61 + (cp - 0x41)) &&& 0x80000000 = 0 := by
      have all : ∀ k < 26, (0x61 + k) &&& 0x80000000 = 0 := by decide
      exact all _ (by omega)
    rw [folding]
    unfold expand lower
    rw [if_pos high, if_pos letter]
    congr 1
    omega
  · unfold lower
    rw [if_neg letter]
    refine t.full_none fun i inside same => ?_
    have member : cp ∈ letters ++ t.laterFrom := by
      rw [← same, List.getD_eq_getElem _ _ inside]
      exact List.getElem_mem inside
    rcases List.mem_append.mp member with low | high
    · exact letter (letters_low cp low)
    · have above := t.behind cp high
      omega

/-- The folding of the code is the table's. -/
theorem casefold_eq (cp : Nat) : t.casefold cp = t.full cp := by
  unfold casefold
  split_ifs with ascii
  · exact (t.full_ascii ascii).symm
  · exact t.find_full (Nat.le_refl _) fun i inside _ => ⟨Nat.zero_le i, inside⟩

theorem expand_ne_nil {v : Nat} (row : v ∈ t.cfTo) : t.expand v ≠ [] := by
  unfold expand
  split_ifs with single
  · exact List.cons_ne_nil _ _
  · have small : ∀ w ∈ letters.map (fun cp => cp + 0x20), w &&& 0x80000000 = 0 := by decide
    have later : v ∈ t.laterTo := (List.mem_append.mp row).resolve_left fun letter => single (small v letter)
    have first := t.expansions v later single
    cases words : t.cfMulti.drop ((v &&& 0xFFFF) * 3) with
    | nil =>
      have short := List.drop_eq_nil_iff.mp words
      rw [List.getD_eq_default _ _ short] at first
      exact absurd rfl first
    | cons word more =>
      have here : t.cfMulti.getD ((v &&& 0xFFFF) * 3) 0 = word := by
        rw [List.getD_eq_getElem?_getD, ← List.head?_drop, words]
        rfl
      rw [here] at first
      rw [List.take_succ_cons, List.takeWhile_cons_of_pos (by simpa using first)]
      exact List.cons_ne_nil _ _

theorem full_ne_nil (cp : Nat) : t.full cp ≠ [] := by
  unfold full
  cases found : (t.cfFrom.zip t.cfTo).find? fun row => row.1 = cp with
  | none => exact List.cons_ne_nil _ _
  | some row => exact t.expand_ne_nil (List.of_mem_zip (List.mem_of_find?_eq_some found)).2


/-! ## Iterators -/

/-- What an iterator gives until it ends. -/
def folded (it : FoldIter) : List Nat :=
  match step : t.foldNext it with
  | none => []
  | some (c, next) => c :: folded next
termination_by it.measure
decreasing_by exact t.foldNext_less step

variable {t}

theorem folded_none {it : FoldIter} (step : t.foldNext it = none) : t.folded it = [] := by
  rw [folded.eq_def]
  split
  · rfl
  · rename_i taken
    rw [step] at taken
    cases taken

theorem folded_some {it next : FoldIter} {c : Nat} (step : t.foldNext it = some (c, next)) :
    t.folded it = c :: t.folded next := by
  rw [folded.eq_def]
  split
  · rename_i taken
    rw [step] at taken
    cases taken
  · rename_i taken
    rw [step] at taken
    cases taken
    rfl

/-- The loop of the comparison decides whether two iterators give the same. -/
theorem keyEqual_iff (x y : FoldIter) : t.keyEqual x y = true ↔ t.folded x = t.folded y := by
  fun_induction keyEqual t x y with
  | case1 x y step =>
    rw [folded_none step]
    cases other : t.foldNext y with
    | none =>
      rw [folded_none other]
      exact iff_of_true rfl rfl
    | some found =>
      rw [folded_some other]
      exact iff_of_false nofun nofun
  | case2 x y ca nextX step other =>
    rw [folded_some step, folded_none other]
    exact iff_of_false nofun nofun
  | case3 x y ca nextX step cb nextY other differ =>
    rw [folded_some step, folded_some other]
    exact iff_of_false nofun fun same => differ (List.cons.inj same).1
  | case4 x y ca nextX step cb nextY other same ih =>
    rw [folded_some step, folded_some other, ih, not_not.mp same, List.cons_inj_right]

/-- The hash is one of what the iterator gives. -/
theorem keyHash_eq (h : Word) (it : FoldIter) :
    t.keyHash h it = (t.folded it).foldl (fun h c => (h ^^^ BitVec.ofNat 32 c) * 16777619) h := by
  fun_induction keyHash t h it with
  | case1 h it step =>
    rw [folded_none step]
    rfl
  | case2 h it c next step ih =>
    rw [ih, folded_some step]
    rfl

/-- What is left of an expansion comes first. -/
theorem folded_buf (bytes : List Byte) (buf : List Nat) : t.folded ⟨bytes, buf⟩ = buf ++ t.folded ⟨bytes, []⟩ := by
  induction buf with
  | nil => rfl
  | cons c buf ih =>
    rw [@folded_some t ⟨bytes, c :: buf⟩ ⟨bytes, buf⟩ c rfl, ih]
    rfl

/-- A text gives its folding. -/
theorem folded_text {cps : List Nat} (scalars : ∀ cp ∈ cps, IsScalar cp) :
    t.folded (foldInit (cps.flatMap utf8)) = cps.flatMap t.full := by
  unfold foldInit
  induction cps with
  | nil => exact folded_none rfl
  | cons cp cps ih =>
    obtain ⟨scalar, others⟩ := List.forall_mem_cons.mp scalars
    rw [List.flatMap_cons, List.flatMap_cons, ← ih others]
    have decode := @utf8Next_complete (cps.flatMap utf8) cp scalar
    cases text : utf8 cp ++ cps.flatMap utf8 with
    | nil => exact absurd (List.append_eq_nil_iff.mp text).1 (utf8_ne_nil cp)
    | cons b rest =>
      by_cases ascii : b.toNat < 0x80
      · obtain ⟨same, tail⟩ := utf8_ascii scalar text.symm ascii
        have step : t.foldNext ⟨b :: rest, []⟩ = some (lower b.toNat, ⟨rest, []⟩) := if_pos ascii
        rw [folded_some step, same, t.full_ascii ascii, tail]
        rfl
      · have step : t.foldNext ⟨b :: rest, []⟩ = t.foldDecode (b :: rest) := if_neg ascii
        rw [text] at decode
        unfold foldDecode at step
        rw [decode] at step
        dsimp only at step
        rw [t.casefold_eq] at step
        cases folding : t.full cp with
        | nil => exact absurd folding (t.full_ne_nil cp)
        | cons c buf =>
          rw [folding] at step
          rw [folded_some step, folded_buf]
          rfl

end Casefold

/-! ## Names -/

/-- A scalar value that a name may hold. -/
def Allowed (c : Nat) : Prop := ¬(c = 0x2F ∨ c < 0x20 ∨ (0x7F ≤ c ∧ c ≤ 0x9F))

theorem nameScan_iff {s : List Byte} {n m : Nat} : nameScan s n = some m ↔
    ∃ cps : List Nat, (∀ c ∈ cps, IsScalar c ∧ Allowed c) ∧ s = cps.flatMap utf8 ∧ m = n + cps.length := by
  fun_induction nameScan s n with
  | case1 s n step =>
    rw [utf8Next_finished.mp step]
    constructor
    · intro same
      cases same
      exact ⟨[], nofun, rfl, rfl⟩
    · rintro ⟨cps, _, empty, rfl⟩
      cases cps with
      | nil => rfl
      | cons c cps => exact absurd (List.append_eq_nil_iff.mp empty.symm).1 (utf8_ne_nil c)
  | case2 s n step =>
    refine iff_of_false nofun ?_
    rintro ⟨cps, scalars, rfl, _⟩
    cases cps with
    | nil => cases step
    | cons c cps =>
      rw [List.flatMap_cons, utf8Next_complete (scalars c List.mem_cons_self).1] at step
      cases step
  | case3 s n c rest step bad =>
    refine iff_of_false nofun ?_
    rintro ⟨cps, scalars, rfl, _⟩
    cases cps with
    | nil => cases step
    | cons d cps =>
      rw [List.flatMap_cons, utf8Next_complete (scalars d List.mem_cons_self).1] at step
      cases step
      exact (scalars c List.mem_cons_self).2 bad
  | case4 s n c rest step good ih =>
    obtain ⟨scalar, rfl⟩ := utf8Next_sound step
    rw [ih]
    constructor
    · rintro ⟨cps, scalars, rfl, rfl⟩
      refine ⟨c :: cps, List.forall_mem_cons.mpr ⟨⟨scalar, good⟩, scalars⟩, rfl, ?_⟩
      rw [List.length_cons]
      omega
    · rintro ⟨cps, scalars, whole, rfl⟩
      cases cps with
      | nil => exact absurd (List.append_eq_nil_iff.mp whole).1 (utf8_ne_nil c)
      | cons d cps =>
        rw [List.flatMap_cons] at whole
        rw [whole, utf8Next_complete (scalars d List.mem_cons_self).1] at step
        cases step
        refine ⟨cps, fun e member => scalars e (List.mem_cons_of_mem _ member), rfl, ?_⟩
        rw [List.length_cons]
        omega

/-- The well-formed names of so many scalar values. -/
structure ValidName (s : List Byte) (cps : List Nat) : Prop where
  scalars : ∀ c ∈ cps, IsScalar c
  text : s = cps.flatMap utf8
  some_ : 1 ≤ cps.length
  most : cps.length ≤ 256
  bytes : s.length ≤ 1024
  allowed : ∀ c ∈ cps, c ≠ 0x2F ∧ ¬c < 0x20 ∧ ¬(0x7F ≤ c ∧ c ≤ 0x9F)
  dots : s ≠ [0x2E] ∧ s ≠ [0x2E, 0x2E]

theorem allowed_iff {c : Nat} : Allowed c ↔ c ≠ 0x2F ∧ ¬c < 0x20 ∧ ¬(0x7F ≤ c ∧ c ≤ 0x9F) := by
  unfold Allowed
  rw [not_or, not_or]

/-- The check accepts exactly the well-formed names. -/
theorem nameCheck_iff {s : List Byte} {n : Nat} : nameCheck s = .ok n ↔ ∃ cps, ValidName s cps ∧ cps.length = n := by
  constructor
  · intro done
    unfold nameCheck at done
    by_cases empty : s.length = 0
    · rw [if_pos empty] at done
      cases done
    rw [if_neg empty] at done
    cases scan : nameScan s 0 with
    | none =>
      rw [scan] at done
      cases done
    | some m =>
      rw [scan] at done
      dsimp only at done
      split_ifs at done with dots long
      cases done
      obtain ⟨cps, scalars, text, rfl⟩ := nameScan_iff.mp scan
      rw [Nat.zero_add] at long ⊢
      refine ⟨cps, ⟨fun c member => (scalars c member).1, text, ?_, by omega, by omega,
        fun c member => allowed_iff.mp (scalars c member).2, not_or.mp dots⟩, rfl⟩
      cases cps with
      | nil =>
        rw [text] at empty
        exact absurd rfl empty
      | cons c cps => exact Nat.succ_le_succ (Nat.zero_le _)
  · rintro ⟨cps, valid, rfl⟩
    have scan : nameScan s 0 = some (0 + cps.length) :=
      nameScan_iff.mpr ⟨cps, fun c member => ⟨valid.scalars c member, allowed_iff.mpr (valid.allowed c member)⟩, valid.text,
        rfl⟩
    have some_ : s.length ≠ 0 := by
      intro none
      have empty := List.eq_nil_of_length_eq_zero none
      have count := valid.some_
      cases list : cps with
      | nil =>
        rw [list] at count
        cases count
      | cons c rest =>
        rw [valid.text, list, List.flatMap_cons] at empty
        exact utf8_ne_nil c (List.append_eq_nil_iff.mp empty).1
    unfold nameCheck
    rw [if_neg some_, scan]
    dsimp only
    have most := valid.most
    have bytes := valid.bytes
    rw [if_neg (not_or.mpr valid.dots), if_neg (by omega), Nat.zero_add]

end Src32.Libfnd
