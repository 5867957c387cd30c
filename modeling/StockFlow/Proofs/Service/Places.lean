import StockFlow.Service.Request

/-!
# Data at different places

The same model data is sent to the service at different places: as the whole body of a
request, or as a field of it.  The place shows in problems only, so what data is read as
does not depend on where it stands.

Main definitions:

- {lit}`Schema.IsUniform`: a check that gives the same wherever the value stands.

Main results:

- Theorem {lit}`ModelData.isUniform_decode`: model data is read alike at all places.
- Theorem {lit}`Schema.list_perm`: so the items of a list are read alike in any order.
- Theorem {lit}`Service.simulated_record`: model data in a request to simulate.
-/

namespace StockFlow

/-- Two checks in turn succeed if both do. -/
theorem bind_eq_ok_iff {α β ε : Type} {x : Except ε α} {f : α → Except ε β} {b : β} :
    (x >>= f) = .ok b ↔ ∃ a, x = .ok a ∧ f a = .ok b := by
  cases x <;> simp [bind, Except.bind]

namespace Checked

variable {α β γ : Type}

/-- What is made of a check succeeds if the check does. -/
theorem map_eq_ok_iff {x : Checked α} {f : α → β} {b : β} :
    x.map f = .ok b ↔ ∃ a, x = .ok a ∧ f a = b := by
  cases x <;> simp [Except.map]

/-- What is there for every item of a list is there under another check that gives the same. -/
theorem all_map_ok {items : List γ} {f g : γ → Checked α} {as : List α}
    (hfg : ∀ c a, f c = .ok a → g c = .ok a) (h : all (items.map f) = .ok as) :
    all (items.map g) = .ok as := by
  induction items generalizing as with
  | nil => exact h
  | cons c rest ih =>
      rw [List.map_cons, all, map_eq_ok_iff] at h ⊢
      rcases h with ⟨p, hp, rfl⟩
      rw [both_eq_ok_iff] at hp
      exact ⟨p, both_eq_ok_iff.2 ⟨hfg c _ hp.1, ih hp.2⟩, rfl⟩

/-- Results in another order are there together as well. -/
theorem all_perm {xs ys : List (Checked α)} (h : ys.Perm xs) {as : List α}
    (hall : all xs = .ok as) : ∃ bs, all ys = .ok bs ∧ bs.Perm as := by
  induction h generalizing as with
  | nil => exact ⟨as, hall, .refl as⟩
  | cons x _ ih =>
      rw [all, map_eq_ok_iff] at hall
      rcases hall with ⟨⟨a, rest⟩, hboth, rfl⟩
      rw [both_eq_ok_iff] at hboth
      rcases ih hboth.2 with ⟨bs, hbs, hperm⟩
      refine ⟨a :: bs, ?_, hperm.cons a⟩
      rw [all, hboth.1, hbs]
      rfl
  | swap x y _ =>
      simp only [all, map_eq_ok_iff, both_eq_ok_iff] at hall
      rcases hall with ⟨⟨a, _⟩, ⟨ha, ⟨⟨b, rest⟩, ⟨hb, hrest⟩, rfl⟩⟩, rfl⟩
      refine ⟨b :: a :: rest, ?_, .swap a b rest⟩
      dsimp only at ha hb hrest
      rw [all, all, ha, hb, hrest]
      rfl
  | trans _ _ ih ih' =>
      rcases ih' hall with ⟨bs, hbs, hperm⟩
      rcases ih hbs with ⟨cs, hcs, hperm'⟩
      exact ⟨cs, hcs, hperm'.trans hperm⟩

end Checked

namespace Schema

variable {α : Type} {check : List PathStep → Value → Checked α}

/-- Whether a check gives the same wherever the value stands. -/
def IsUniform (check : List PathStep → Value → Checked α) : Prop :=
  ∀ place place' v a, check place v = .ok a → check place' v = .ok a

/-- A text is one at every place. -/
theorem isUniform_text : IsUniform text := by
  intro place place' v a h
  cases v with
  | text s => exact h
  | _ => cases h

theorem isUniform_integer : IsUniform integer := by
  intro place place' v a h
  unfold integer at h ⊢
  dsimp only at h ⊢
  split at h
  · exact h
  · cases h

/-- A number is one at every place, and with the same value. -/
theorem isUniform_number : IsUniform number := by
  intro place place' v a h
  unfold number at h ⊢
  split at h
  · exact h
  · exact h
  · split at h
    · exact h
    · cases h
  · split at h
    · exact h
    · cases h
  · cases h

/-- A record is one at every place. -/
theorem isUniform_record : IsUniform record := by
  intro place place' v a h
  cases v with
  | record fields => exact h
  | _ => cases h

theorem isUniform_fieldsOf : IsUniform fieldsOf := by
  intro place place' v a h
  cases v with
  | record fields => exact h
  | _ => cases h

/-- A list is uniform if the check of its items is. -/
theorem isUniform_list (hcheck : IsUniform check) : IsUniform (list check) := by
  intro place place' v as h
  cases v with
  | list items => exact Checked.all_map_ok (fun entry a => hcheck _ _ entry.1 a) h
  | _ => cases h

/-- What the items of a list are read as does not depend on their order. -/
theorem list_perm (hcheck : IsUniform check) {place : List PathStep} {items items' : List Value}
    (h : items'.Perm items) {as : List α} (hlist : list check place (.list items) = .ok as) :
    ∃ bs, list check place (.list items') = .ok bs ∧ bs.Perm as := by
  have hindices : ∀ items : List Value, items.map (check place) =
      items.zipIdx.map fun entry => check place entry.1 := by
    intro items
    have hfirst := congrArg (List.map (check place)) (List.zipIdx_map_fst 0 items)
    rw [List.map_map] at hfirst
    exact hfirst.symm
  have hall : Checked.all (items.map (check place)) = .ok as := by
    rw [hindices]
    exact Checked.all_map_ok (fun entry a => hcheck _ _ entry.1 a) hlist
  rcases Checked.all_perm (h.map (check place)) hall with ⟨bs, hbs, hperm⟩
  rw [hindices] at hbs
  exact ⟨bs, Checked.all_map_ok (fun entry a => hcheck _ _ entry.1 a) hbs, hperm⟩

variable {place place' : List PathStep} {fields : List (String × Value)} {name : String}

/-- A required field that passes does so at every place. -/
theorem required_ok (hcheck : IsUniform check) {a : α}
    (h : required check place fields name = .ok a) :
    required check place' fields name = .ok a := by
  rw [required] at h ⊢
  split at h
  · exact hcheck _ _ _ a h
  · cases h

/-- A field with a default that passes does so at every place. -/
theorem withDefault_ok (hcheck : IsUniform check) {usual a : α}
    (h : withDefault usual check place fields name = .ok a) :
    withDefault usual check place' fields name = .ok a := by
  rw [withDefault] at h ⊢
  split at h
  · exact hcheck _ _ _ a h
  · exact h

/-- An optional field that passes does so at every place. -/
theorem optional_ok (hcheck : IsUniform check) {a : Option α}
    (h : optional check place fields name = .ok a) :
    optional check place' fields name = .ok a := by
  rw [optional] at h ⊢
  split at h
  · exact h
  · exact h
  · rcases Checked.map_eq_ok_iff.1 h with ⟨x, hx, rfl⟩
    exact Checked.map_eq_ok_iff.2 ⟨x, hcheck _ _ _ x hx, rfl⟩

end Schema

open Schema

/-! ## Models -/

/-- An element is decoded to the same data at every place. -/
theorem ElementData.isUniform_decode : IsUniform ElementData.decode := by
  intro place place' v e h
  simp only [ElementData.decode, bind_eq_ok_iff, Checked.both_eq_ok_iff] at h ⊢
  rcases h with ⟨fields, hfields, ⟨id, type, name, value, formula, x, y⟩, hparts, he⟩
  obtain ⟨hid, htype, hname, hvalue, hformula, hx, hy⟩ := hparts
  exact ⟨fields, isUniform_fieldsOf _ _ v fields hfields, ⟨id, type, name, value, formula, x, y⟩,
    ⟨required_ok isUniform_integer hid, required_ok isUniform_text htype,
      optional_ok isUniform_text hname, optional_ok isUniform_number hvalue,
      optional_ok isUniform_text hformula, optional_ok isUniform_number hx,
      optional_ok isUniform_number hy⟩, he⟩

/-- A connection is decoded to the same data at every place. -/
theorem ConnectionData.isUniform_decode : IsUniform ConnectionData.decode := by
  intro place place' v c h
  simp only [ConnectionData.decode, bind_eq_ok_iff, Checked.both_eq_ok_iff] at h ⊢
  rcases h with ⟨fields, hfields, parts, hparts, hc⟩
  obtain ⟨hid, hsource, htarget, htype⟩ := hparts
  exact ⟨fields, isUniform_fieldsOf _ _ v fields hfields, parts,
    ⟨required_ok isUniform_integer hid, required_ok isUniform_integer hsource,
      required_ok isUniform_integer htarget, withDefault_ok isUniform_text htype⟩, hc⟩

/-- Model data is read alike at all places. -/
theorem ModelData.isUniform_decode (rounds : Value) : IsUniform (ModelData.decode rounds) := by
  intro place place' v data h
  simp only [ModelData.decode, bind_eq_ok_iff, Checked.both_eq_ok_iff] at h ⊢
  rcases h with ⟨fields, hfields, parts, hparts, hdata⟩
  obtain ⟨hname, helements, hconnections, hparameters⟩ := hparts
  exact ⟨fields, isUniform_fieldsOf _ _ v fields hfields, parts,
    ⟨optional_ok isUniform_text hname,
      required_ok (isUniform_list ElementData.isUniform_decode) helements,
      withDefault_ok (isUniform_list ConnectionData.isUniform_decode) hconnections,
      withDefault_ok isUniform_record hparameters⟩, hdata⟩

/-- Model data that can be checked is the model data of a request to simulate it. -/
theorem Service.simulated_record {v : Value} {data : ModelData} {fields : List (String × Value)}
    (hdata : Service.modelOf [.field "body"] v = .ok data)
    (hmodel : fields.lookup "model" = some v) :
    Service.simulated (.record fields) = .ok data := by
  have hrequired : required Service.modelOf [.field "body"] fields "model" =
      Service.modelOf (below [.field "body"] "model") v := by
    rw [required, hmodel]
  exact hrequired.trans (ModelData.isUniform_decode usualRounds _ _ v data hdata)

end StockFlow
