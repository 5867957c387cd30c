import StockFlow.Draft

/-!
# Drafts that grow

Elements are only ever added, so a term stands for the same tree in all later
drafts.  A tree that is placed among the drafts is what the new term stands for.

Main definitions:

- {lit}`Drafts.Extends`: whether drafts still hold everything that others hold.

Main results:

- Theorem {lit}`Drafts.Extends.tree?`: terms stand for the same trees as before.
- Theorem {lit}`Drafts.tree?_place`: a placed tree is what its term stands for.
-/

namespace StockFlow
namespace Drafts

/-- Whether drafts hold all elements of others. -/
structure Extends (d d' : Drafts) : Prop where
  size_le : d.elements.size ≤ d'.elements.size
  element?_eq : ∀ e x, d.element? e = some x → d'.element? e = some x

variable {d d' d'' : Drafts}

/-- An element whose operands stand for trees. -/
theorem treeWithin_element {e : ElementId} {x : Element} {depth : Nat} {l r : Argument}
    (hx : d.element? e = some x) (hl : d.treeWithin depth x.left = some l)
    (hr : d.treeWithin depth x.right = some r) :
    d.treeWithin (depth + 1) (.element e) = some (.apply x.op l r) := by
  simp only [treeWithin, hx, hl, hr, Option.bind_eq_bind, Option.bind_some]
  rfl

namespace Extends

theorem refl (d : Drafts) : Extends d d :=
  ⟨Nat.le_refl _, fun _ _ h => h⟩

theorem trans (h : Extends d d') (h' : Extends d' d'') : Extends d d'' :=
  ⟨Nat.le_trans h.size_le h'.size_le, fun e x hx => h'.element?_eq e x (h.element?_eq e x hx)⟩

/-- A term stands for the same tree, however much deeper is looked. -/
theorem treeWithin (h : Extends d d') {depth depth' : Nat} (hdepth : depth ≤ depth') {t : Term}
    {a : Argument} (ht : d.treeWithin depth t = some a) : d'.treeWithin depth' t = some a := by
  induction depth generalizing depth' t a with
  | zero =>
      cases t with
      | entity e =>
          rw [Drafts.treeWithin] at ht ⊢
          exact ht
      | element e => cases ht
  | succ depth ih =>
      cases t with
      | entity e =>
          rw [Drafts.treeWithin] at ht ⊢
          exact ht
      | element e =>
          obtain ⟨n, rfl⟩ : ∃ n, depth' = n + 1 := ⟨depth' - 1, by omega⟩
          have hle : depth ≤ n := Nat.le_of_succ_le_succ hdepth
          simp only [Drafts.treeWithin, Option.bind_eq_bind, Option.bind_eq_some_iff] at ht ⊢
          rcases ht with ⟨x, hx, l, hl, r, hr, htree⟩
          exact ⟨x, h.element?_eq e x hx, l, ih hle hl, r, ih hle hr, htree⟩

/-- A term that stands for a tree stands for it ever after. -/
theorem tree? (h : Extends d d') {t : Term} {a : Argument} (ht : d.tree? t = some a) :
    d'.tree? t = some a :=
  h.treeWithin h.size_le ht

end Extends

/-! ## Placed trees -/

/-- Adding an element keeps the old ones. -/
theorem extends_add (d : Drafts) (x : Element) : Extends d (d.add x).1 := by
  refine ⟨?_, fun e y hy => ?_⟩
  · rw [add, Array.size_push]
    exact Nat.le_succ _
  · have hlt : e.index < d.elements.size := (Array.getElem?_eq_some_iff.1 hy).1
    rw [element?_add_of_ne d x (Nat.ne_of_lt hlt)]
    exact hy

/-- Placing a formula keeps the old elements. -/
theorem extends_place (d : Drafts) (f : Formula Term) : Extends d (d.place f).1 := by
  induction f generalizing d with
  | leaf t => exact .refl d
  | apply op l r ihl ihr =>
      rw [place]
      exact ((ihl d).trans (ihr _)).trans (extends_add _ _)

/-- Every level of a placed tree takes an element of its own. -/
theorem depth_le_size_place (d : Drafts) (f : Formula Term) :
    f.depth ≤ (d.place f).1.elements.size + 1 := by
  induction f generalizing d with
  | leaf t =>
      rw [Formula.depth]
      omega
  | apply op l r ihl ihr =>
      have hl := ihl d
      have hr := ihr (d.place l).1
      have hgrown := (extends_place (d.place l).1 r).size_le
      rw [Formula.depth, place, add, Array.size_push]
      omega

/-- A formula that is placed is read back as a tree, if looking goes as deep as it does. -/
theorem treeWithin_place (d : Drafts) (f : Formula Entity) (depth : Nat)
    (hdepth : f.depth ≤ depth + 1) :
    (d.place (f.map .entity)).1.treeWithin depth (d.place (f.map .entity)).2 = some f := by
  induction f generalizing d depth with
  | leaf e =>
      rw [Formula.map, place, treeWithin]
  | apply op l r ihl ihr =>
      rw [Formula.depth] at hdepth
      have hpos := l.depth_pos
      obtain ⟨n, rfl⟩ : ∃ n, depth = n + 1 := ⟨depth - 1, by omega⟩
      rw [Formula.map, place]
      have hleft := ihl d n (by omega)
      have hright := ihr (d.place (l.map .entity)).1 n (by omega)
      have hadd := extends_add ((d.place (l.map .entity)).1.place (r.map .entity)).1
        ⟨op, (d.place (l.map .entity)).2, ((d.place (l.map .entity)).1.place (r.map .entity)).2⟩
      have hleft' := ((extends_place _ (r.map .entity)).trans hadd).treeWithin (Nat.le_refl n) hleft
      have hright' := hadd.treeWithin (Nat.le_refl n) hright
      exact treeWithin_element (element?_add _ _) hleft' hright'

/-- A placed tree is what its term stands for. -/
theorem tree?_place (d : Drafts) (f : Formula Entity) :
    (d.place (f.map .entity)).1.tree? (d.place (f.map .entity)).2 = some f := by
  refine treeWithin_place d f _ ?_
  have hdepth := depth_le_size_place d (f.map .entity)
  rwa [Formula.depth_map] at hdepth

end Drafts
end StockFlow
