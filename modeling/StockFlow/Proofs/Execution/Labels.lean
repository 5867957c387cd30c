import StockFlow.Execution.Basic
import StockFlow.Proofs.Text.Decimals

/-!
# Labels of recorded nodes

A name that occurs repeatedly gets numbered labels, and nothing is checked against
names that already look like a numbered label.  Labels differ if and only if no
such name is among the names: then and only then a label is made up that is given
as a name.

Main definitions:

- {lit}`numbered`: the label of a repeated name.
- {lit}`LabelsClash`: some name looks like a label that is made up.

Main results:

- Theorem {lit}`numbered_inj`: numbered labels of different names or numbers differ.
- Theorem {lit}`mem_labelsAfter_iff`: what is among the labels.
- Theorem {lit}`nodup_uniqueLabels_iff`: labels differ exactly if names do not clash with them.
- Theorem {lit}`uniqueLabels_eq_self`: names that differ are their own labels.
-/

namespace StockFlow

/-! ## Numbered labels -/

/-- The label that a name gets where it occurs for the given time. -/
def numbered (name : String) (count : Nat) : String :=
  name ++ " [" ++ Text.decimal count ++ "]"

/-- What stands before and behind the first of two equal separators is the same. -/
theorem split_inj {a : Char} {d d' xs ys : List Char} (hd : a ∉ d) (hd' : a ∉ d')
    (h : d ++ a :: xs = d' ++ a :: ys) : d = d' ∧ xs = ys := by
  induction d generalizing d' with
  | nil =>
      cases d' with
      | nil => exact ⟨rfl, (List.cons.inj h).2⟩
      | cons c rest =>
          have hc : a = c := (List.cons.inj h).1
          exact (hd' (hc ▸ List.mem_cons_self)).elim
  | cons c rest ih =>
      cases d' with
      | nil =>
          have hc : c = a := (List.cons.inj h).1
          exact (hd (hc ▸ List.mem_cons_self)).elim
      | cons c' rest' =>
          rw [List.mem_cons, not_or] at hd hd'
          rcases List.cons.inj h with ⟨hc, htail⟩
          rcases ih hd.2 hd'.2 htail with ⟨hrest, hxs⟩
          rw [hc, hrest]
          exact ⟨rfl, hxs⟩

/-- A numbered name ends with a blank and the number in square brackets. -/
theorem toList_numbered (name : String) (count : Nat) :
    (numbered name count).toList =
      name.toList ++ ' ' :: '[' :: (Text.decimalDigits count ++ [']']) := by
  rw [numbered, String.toList_append, String.toList_append, String.toList_append,
    Text.toList_decimal]
  simp

/-- Numbered labels are the same only for one name and one number. -/
theorem numbered_inj {x y : String} {k l : Nat} (h : numbered x k = numbered y l) :
    x = y ∧ k = l := by
  have hchars := congrArg (fun s => s.toList.reverse) h
  simp only [toList_numbered, List.reverse_append, List.reverse_cons, List.reverse_nil,
    List.nil_append, List.append_assoc, List.cons_append, List.cons.injEq, true_and] at hchars
  have hbracket : ∀ n : Nat, '[' ∉ (Text.decimalDigits n).reverse := by
    intro n hn
    have hdigit := Text.isDigit_of_mem_decimalDigits (List.mem_reverse.1 hn)
    simp [Char.isDigit] at hdigit
  rcases split_inj (hbracket k) (hbracket l) hchars with ⟨hdigits, hname⟩
  refine ⟨String.toList_inj.1 ?_, Text.decimalDigits_inj (List.reverse_inj.1 hdigits)⟩
  exact List.reverse_inj.1 (List.cons.inj hname).2

/-! ## What is among the labels -/

/-- A name that was seen before is numbered, and seen from now on. -/
theorem labelsAfter_cons (seen : List String) (name : String) (rest : List String) :
    labelsAfter seen (name :: rest) =
      (if name ∈ seen then numbered name (seen.count name + 1) else name) ::
        labelsAfter (name :: seen) rest := by
  rw [labelsAfter]
  by_cases hseen : name ∈ seen
  · have hcount := List.count_pos_iff.2 hseen
    have hfirst : ¬ (seen.count name + 1 = 1) := by omega
    rw [if_pos hseen]
    simp only [hfirst, if_false]
    rfl
  · have hfirst : seen.count name + 1 = 1 := by rw [List.count_eq_zero.2 hseen]
    rw [if_neg hseen]
    simp only [hfirst, if_true]

/-- One more time that a name was seen. -/
theorem count_seen (seen : List String) (name x : String) :
    (name :: seen).count x = seen.count x + if x = name then 1 else 0 := by
  rw [List.count_cons]
  by_cases hx : x = name
  · simp [hx]
  · simp [hx, Ne.symm hx]

theorem count_seen_add (seen rest : List String) (name x : String) :
    (name :: seen).count x + rest.count x = seen.count x + (name :: rest).count x := by
  rw [count_seen, count_seen]
  omega

/-- The one label of a name's further times that is no longer to come after a name is seen. -/
theorem eq_of_count_seen {seen : List String} {name x : String} {k : Nat}
    (hlow : seen.count x < k) (hnext : ¬ (name :: seen).count x < k) :
    x = name ∧ k = seen.count name + 1 := by
  rw [count_seen] at hnext
  by_cases hx : x = name
  · rw [if_pos hx] at hnext
    refine ⟨hx, ?_⟩
    rw [← hx]
    omega
  · rw [if_neg hx] at hnext
    exact absurd hlow hnext

/--
Among the labels are the names that were not seen before, and for every further time
that a name occurs its numbered label.
-/
theorem mem_labelsAfter_iff {seen names : List String} {label : String} :
    label ∈ labelsAfter seen names ↔ (label ∈ names ∧ label ∉ seen) ∨
      ∃ x k, seen.count x < k ∧ 2 ≤ k ∧ k ≤ seen.count x + names.count x ∧
        label = numbered x k := by
  induction names generalizing seen with
  | nil =>
      constructor
      · simp [labelsAfter]
      · rintro (⟨hmem, _⟩ | ⟨x, k, hlow, _, hhigh, _⟩)
        · simp at hmem
        · rw [List.count_nil] at hhigh
          omega
  | cons name rest ih =>
      rw [labelsAfter_cons, List.mem_cons, ih, List.mem_cons, List.mem_cons, not_or]
      constructor
      · rintro (hlabel | ⟨hmem, _, hseen⟩ | ⟨x, k, hlow, htwo, hhigh, hlabel⟩)
        · by_cases hseen : name ∈ seen
          · have hcount := List.count_pos_iff.2 hseen
            rw [if_pos hseen] at hlabel
            refine Or.inr ⟨name, seen.count name + 1, by omega, by omega, ?_, hlabel⟩
            rw [← count_seen_add, count_seen, if_pos rfl]
            omega
          · rw [if_neg hseen] at hlabel
            exact Or.inl ⟨Or.inl hlabel, hlabel ▸ hseen⟩
        · exact Or.inl ⟨Or.inr hmem, hseen⟩
        · rw [count_seen_add] at hhigh
          rw [count_seen] at hlow
          exact Or.inr ⟨x, k, by omega, htwo, hhigh, hlabel⟩
      · rintro (⟨hlabel | hmem, hseen⟩ | ⟨x, k, hlow, htwo, hhigh, hlabel⟩)
        · rw [if_neg (hlabel ▸ hseen)]
          exact Or.inl hlabel
        · by_cases hlabel : label = name
          · rw [if_neg (hlabel ▸ hseen)]
            exact Or.inl hlabel
          · exact Or.inr (Or.inl ⟨hmem, hlabel, hseen⟩)
        · by_cases hnext : (name :: seen).count x < k
          · rw [← count_seen_add] at hhigh
            exact Or.inr (Or.inr ⟨x, k, hnext, htwo, hhigh, hlabel⟩)
          · rcases eq_of_count_seen hlow hnext with ⟨rfl, hk⟩
            have hseen : x ∈ seen := List.count_pos_iff.1 (by omega)
            rw [if_pos hseen, ← hk]
            exact Or.inl hlabel

/-! ## When labels differ -/

/-- Whether a name that is still to come looks like a numbered label that is still to be made up. -/
def ClashAfter (seen names : List String) : Prop :=
  ∃ x k, seen.count x < k ∧ 2 ≤ k ∧ k ≤ seen.count x + names.count x ∧
    numbered x k ∈ names ∧ numbered x k ∉ seen

/-- Whether some name looks like the numbered label of a name that occurs that often. -/
def LabelsClash (names : List String) : Prop :=
  ∃ x k, 2 ≤ k ∧ k ≤ names.count x ∧ numbered x k ∈ names

/-- Where no name was seen yet, all names are still to come. -/
theorem clashAfter_nil_iff {names : List String} : ClashAfter [] names ↔ LabelsClash names := by
  constructor
  · rintro ⟨x, k, _, htwo, hhigh, hmem, _⟩
    rw [List.count_nil] at hhigh
    exact ⟨x, k, htwo, by omega, hmem⟩
  · rintro ⟨x, k, htwo, hhigh, hmem⟩
    refine ⟨x, k, ?_, htwo, ?_, hmem, by simp⟩
    · rw [List.count_nil]
      omega
    · rw [List.count_nil]
      omega

/-- A clash among later names is one among all of them. -/
theorem ClashAfter.of_seen {seen rest : List String} {name : String}
    (h : ClashAfter (name :: seen) rest) : ClashAfter seen (name :: rest) := by
  rcases h with ⟨x, k, hlow, htwo, hhigh, hmem, hseen⟩
  rw [List.mem_cons, not_or] at hseen
  rw [count_seen_add] at hhigh
  rw [count_seen] at hlow
  exact ⟨x, k, by omega, htwo, hhigh, List.mem_cons_of_mem name hmem, hseen.2⟩

/-- The label of a name that is seen again clashes only with a name that looks like it. -/
theorem clashAfter_cons_of_mem {seen rest : List String} {name : String} (hname : name ∈ seen) :
    ClashAfter seen (name :: rest) ↔
      numbered name (seen.count name + 1) ∈ labelsAfter (name :: seen) rest ∨
        ClashAfter (name :: seen) rest := by
  have hcount := List.count_pos_iff.2 hname
  constructor
  · rintro ⟨x, k, hlow, htwo, hhigh, hmem, hseen⟩
    have hne : numbered x k ≠ name := fun heq => hseen (heq ▸ hname)
    have hrest : numbered x k ∈ rest := (List.mem_cons.1 hmem).resolve_left hne
    have hseen' : numbered x k ∉ name :: seen := by
      rw [List.mem_cons, not_or]
      exact ⟨hne, hseen⟩
    by_cases hnext : (name :: seen).count x < k
    · rw [← count_seen_add] at hhigh
      exact Or.inr ⟨x, k, hnext, htwo, hhigh, hrest, hseen'⟩
    · rcases eq_of_count_seen hlow hnext with ⟨rfl, hk⟩
      rw [← hk, mem_labelsAfter_iff]
      exact Or.inl (Or.inl ⟨hrest, hseen'⟩)
  · rintro (hlabel | hclash)
    · rcases mem_labelsAfter_iff.1 hlabel with ⟨hmem, hseen⟩ | ⟨x, k, hlow, _, _, heq⟩
      · rw [List.mem_cons, not_or] at hseen
        refine ⟨name, seen.count name + 1, by omega, by omega, ?_, ?_, hseen.2⟩
        · rw [← count_seen_add, count_seen, if_pos rfl]
          omega
        · exact List.mem_cons_of_mem name hmem
      · rcases numbered_inj heq with ⟨rfl, hk⟩
        rw [count_seen, if_pos rfl] at hlow
        omega
    · exact hclash.of_seen

/-- A name that is seen for the first time clashes only with a label that is made up later. -/
theorem clashAfter_cons_of_not_mem {seen rest : List String} {name : String}
    (hname : name ∉ seen) :
    ClashAfter seen (name :: rest) ↔
      name ∈ labelsAfter (name :: seen) rest ∨ ClashAfter (name :: seen) rest := by
  have hcount : seen.count name = 0 := List.count_eq_zero.2 hname
  constructor
  · rintro ⟨x, k, hlow, htwo, hhigh, hmem, hseen⟩
    have hnext : (name :: seen).count x < k := by
      rw [count_seen]
      split
      · rename_i hx
        rw [hx, hcount]
        omega
      · exact hlow
    rw [← count_seen_add] at hhigh
    by_cases heq : numbered x k = name
    · rw [mem_labelsAfter_iff]
      exact Or.inl (Or.inr ⟨x, k, hnext, htwo, hhigh, heq.symm⟩)
    · refine Or.inr ⟨x, k, hnext, htwo, hhigh, (List.mem_cons.1 hmem).resolve_left heq, ?_⟩
      rw [List.mem_cons, not_or]
      exact ⟨heq, hseen⟩
  · rintro (hlabel | hclash)
    · rcases mem_labelsAfter_iff.1 hlabel with ⟨_, hseen⟩ | ⟨x, k, hlow, htwo, hhigh, heq⟩
      · exact (hseen List.mem_cons_self).elim
      · rw [count_seen_add] at hhigh
        rw [count_seen] at hlow
        refine ⟨x, k, by omega, htwo, hhigh, ?_, ?_⟩
        · rw [← heq]
          exact List.mem_cons_self
        · rwa [← heq]
    · exact hclash.of_seen

/-- Labels differ if and only if no name clashes with a label that is made up. -/
theorem nodup_labelsAfter_iff {seen names : List String} :
    (labelsAfter seen names).Nodup ↔ ¬ ClashAfter seen names := by
  induction names generalizing seen with
  | nil =>
      constructor
      · rintro _ ⟨x, k, _, _, _, hmem, _⟩
        simp at hmem
      · intro _
        exact List.nodup_nil
  | cons name rest ih =>
      rw [labelsAfter_cons, List.nodup_cons, ih, ← not_or]
      by_cases hname : name ∈ seen
      · rw [if_pos hname, clashAfter_cons_of_mem hname]
      · rw [if_neg hname, clashAfter_cons_of_not_mem hname]

/-- Labels are apart exactly if no name looks like a numbered label that is made up. -/
theorem nodup_uniqueLabels_iff {names : List String} :
    (uniqueLabels names).Nodup ↔ ¬ LabelsClash names := by
  rw [uniqueLabels, nodup_labelsAfter_iff, clashAfter_nil_iff]

/-- Names that were not seen before and differ are their own labels. -/
theorem labelsAfter_eq_self {seen names : List String} (hnodup : names.Nodup)
    (hseen : ∀ name ∈ names, name ∉ seen) : labelsAfter seen names = names := by
  induction names generalizing seen with
  | nil => rfl
  | cons name rest ih =>
      rw [List.nodup_cons] at hnodup
      rw [labelsAfter_cons, if_neg (hseen name List.mem_cons_self), ih hnodup.2]
      intro x hx hmem
      rcases List.mem_cons.1 hmem with rfl | hmem
      · exact hnodup.1 hx
      · exact hseen x (List.mem_cons_of_mem name hx) hmem

/-- Names that are apart are labels already. -/
theorem uniqueLabels_eq_self {names : List String} (h : names.Nodup) :
    uniqueLabels names = names :=
  labelsAfter_eq_self h fun _ _ => List.not_mem_nil

/-- A name that looks like the label of another name's second time. -/
example : uniqueLabels ["A", "A", "A [2]"] = ["A", "A [2]", "A [2]"] := by decide

end StockFlow
