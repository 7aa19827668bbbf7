import DialogChart.Proofs.Layout.Separation
import DialogChart.Proofs.Layout.Visits

/-!
# The bands of subtrees

In exact arithmetic, every visit has a band: it begins a gap below the height above the turn, and is
as high as the turn or the stack of its children, whichever is higher.  With lengths that are not
negative, the turn and everything that is placed during its visit stand inside the band.

The bands of a stack lie one below the other.  Between two turns that a stack places one after the
other there is one gap, and one more for every sibling between them that has been met before
(`Visit.top_of_skipped`).  A turn stands in the middle of the stack of its children when that is at
least as high as the turn, and at the top of its band otherwise.  So a turn with one child, which it
places itself, stands level with it.

The main statement is `subtree_bands`.
-/

namespace DialogChart

namespace Packing

/-! ### The place of a turn in its band -/

/-- Beside a stack that is at least as high, a turn stands in the middle. -/
lemma corner_middle {spacing : Spacing ℚ} {stack : ℚ} (h : spacing.nodeSize.height ≤ stack)
    (column : Nat) (above : ℚ) :
    (corner spacing column above stack).y + spacing.nodeSize.height / 2 =
      above + spacing.rowGap + stack / 2 := by
  have hnonneg : 0 ≤ stack / 2 - spacing.nodeSize.height / 2 := by linarith
  rw [corner_y, max_eq_left hnonneg]
  ring

/-- Beside a stack that is lower, a turn stands a gap below the height above it. -/
lemma corner_top {spacing : Spacing ℚ} {stack : ℚ} (h : stack ≤ spacing.nodeSize.height)
    (column : Nat) (above : ℚ) :
    (corner spacing column above stack).y = above + spacing.rowGap := by
  have hnonpos : stack / 2 - spacing.nodeSize.height / 2 ≤ 0 := by linarith
  rw [corner_y, max_eq_right hnonpos, add_zero]

/-- A turn stands where it would stand beside a stack as high as what it reserves. -/
lemma corner_reserved (spacing : Spacing ℚ) (column column' : Nat) (above stack : ℚ) :
    (corner spacing column above (max spacing.nodeSize.height stack)).y =
      (corner spacing column' above stack).y := by
  rcases le_total spacing.nodeSize.height stack with h | h
  · rw [max_eq_right h, corner_y, corner_y]
  · rw [max_eq_left h, corner_top le_rfl, corner_top h]

namespace Visit

variable {n : Nat} {adj : Adjacency n} {ranks : Option (Vector (Option ℚ) n)}
  {spacing : Spacing ℚ} {roots : List (Fin n)} {i j k : Fin n}

/-- The band of a visit begins a gap below the height above the turn. -/
def top (v : Visit adj ranks spacing roots i) : ℚ :=
  v.above + spacing.rowGap

/-- The band of a visit is as high as the turn or its children, whichever is higher. -/
def bottom (v : Visit adj ranks spacing roots i) : ℚ :=
  v.top + max spacing.nodeSize.height v.stack

/-- The height that is reserved is that of the band. -/
lemma reserved_eq (v : Visit adj ranks spacing roots i) :
    v.reserved = max spacing.nodeSize.height v.stack :=
  Coordinate.larger_rat _ _

/-! ### What is placed during a visit -/

/-- The turn itself is placed during its visit. -/
lemma places_self (v : Visit adj ranks spacing roots i) : v.Places i := by
  refine ⟨?_, _, _, v.left_get⟩
  intro c p hplaced
  have hfresh := v.fresh
  rw [hplaced] at hfresh
  cases hfresh

/-- What is placed during a visit is the turn itself, or is placed with its children. -/
lemma Places.cases {v : Visit adj ranks spacing roots i} (h : v.Places j) :
    j = i ∨ ∃ c p, Gains (v.before.set i .pending i.isLt) v.after j c p ∧
      (run adj roots ranks spacing).get j = .placed c p := by
  obtain ⟨hbefore, c, p, hleft⟩ := h
  have hrun := v.reached_left.run_placed hleft
  by_cases hji : j = i
  · exact .inl hji
  · rw [v.left_eq] at hleft
    dsimp only at hleft
    rw [get_set, if_neg hji] at hleft
    refine .inr ⟨c, p, ⟨?_, hleft⟩, hrun⟩
    -- A turn that had been met keeps its slot, and so would have had its place before.
    by_contra hmet
    rw [Bool.not_eq_true] at hmet
    rw [v.course.kept hmet, get_set, if_neg hji] at hleft
    exact hbefore c p hleft

/-- What is placed during a visit stands inside its band. -/
lemma Places.within (hs : spacing.Nonneg) {v : Visit adj ranks spacing roots i}
    (h : v.Places j) : ∃ c p, (run adj roots ranks spacing).get j = .placed c p ∧
      v.top ≤ p.y ∧ p.y + spacing.nodeSize.height ≤ v.bottom := by
  rcases h.cases with rfl | ⟨c, p, hgains, hrun⟩
  · exact ⟨_, _, v.run_get, corner_fits spacing _ v.above v.stack⟩
  · refine ⟨c, p, hrun, ?_⟩
    obtain ⟨htop, hbottom⟩ := v.course.band hs hgains
    have hfits : v.own.height ≤ max spacing.nodeSize.height v.stack + spacing.rowGap :=
      stack_fits spacing v.own.height
    unfold bottom top
    exact ⟨by linarith, by linarith⟩

/-! ### Visits of one stack -/

/-- Siblings that have been met before are taken one after the other, each with a gap. -/
lemma moves_skip {slots : Vector (Slot ℚ) n} {skipped : List (Fin n)}
    (h : ∀ m ∈ skipped, (slots.get m).isFree = false) (owner : Option (Fin n))
    (met rest : List (Fin n)) (above : ℚ) (column : Nat) (height : ℚ)
    (below : List (Frame ℚ n)) :
    Moves adj ranks spacing
      ⟨slots, ⟨owner, met, skipped ++ rest, above, column, height⟩ :: below⟩
      ⟨slots, ⟨owner, skipped.reverse ++ met, rest, above, column,
        height + spacing.rowGap * skipped.length⟩ :: below⟩ := by
  induction skipped generalizing met height with
  | nil =>
    rw [List.length_nil, Nat.cast_zero, mul_zero, add_zero]
    exact .refl
  | cons m skipped ih =>
    obtain ⟨hm, hskipped⟩ := List.forall_mem_cons.mp h
    have hheight : height + spacing.rowGap * (m :: skipped).length =
        height + spacing.rowGap + spacing.rowGap * skipped.length := by
      rw [List.length_cons, Nat.cast_add_one]
      ring
    rw [hheight, List.reverse_cons, List.append_assoc]
    exact .head (step_skip hm _ _ _ _ _ _ _) (ih hskipped _ _)

/-- Between the bands of two turns that a stack places one after the other there is a gap, and one
more for each sibling between them that has been met before. -/
lemma top_of_skipped (v : Visit adj ranks spacing roots i) (w : Visit adj ranks spacing roots k)
    {skipped : List (Fin n)} (howner : w.outer.owner = v.outer.owner)
    (hlater : v.later = skipped ++ k :: w.later)
    (hmet : ∀ m ∈ skipped, (v.left.slots.get m).isFree = false) :
    w.top = v.bottom + spacing.rowGap * (1 + skipped.length) := by
  have hleft := v.reached_left
  rw [v.left_eq] at hmet hleft
  rw [hlater] at hleft
  -- The siblings in between are skipped, and then the stack has the second turn before it.
  have hsame := faces_unique (hleft.trans (moves_skip hmet _ _ _ _ _ _ _)) w.reached
    ⟨_, _, rfl, rfl, rfl⟩ ⟨_, _, rfl, howner, w.next⟩
  have houter := (List.cons.inj (State.mk.inj hsame).2).1
  unfold bottom top
  rw [w.above_eq, ← houter, ← v.reserved_eq, v.above_eq]
  ring

/-- The only child of a turn, if the turn places it, stands below the same height as the turn, and
its band is the stack of the turn. -/
lemma only_child (hs : spacing.Nonneg) (v : Visit adj ranks spacing roots i)
    (w : Visit adj ranks spacing roots k) (hchildren : adj.children.get i = [k])
    (howner : w.outer.owner = some i) :
    w.above = v.above ∧ v.stack = max spacing.nodeSize.height w.stack := by
  have hlater : w.later = [] := by
    have hsiblings := w.siblings
    rw [howner, siblingsOf, hchildren, ordered_singleton, List.append_eq_singleton_iff] at hsiblings
    rcases hsiblings with ⟨-, hcons⟩ | ⟨-, hnil⟩
    · exact (List.cons.inj hcons).2
    · cases hnil
  have hopened := v.opened
  rw [hchildren, ordered_singleton] at hopened
  have hopen := faces_unique hopened w.reached ⟨_, _, rfl, rfl, rfl⟩
    ⟨_, _, rfl, howner, by rw [w.next, hlater]⟩
  have houter := (List.cons.inj (State.mk.inj hopen).2).1
  have hleft := w.reached_left
  rw [w.left_eq, hlater] at hleft
  have hclose := faces_unique hleft (v.reached.trans v.stacked) ⟨_, _, rfl, howner, rfl⟩
    ⟨_, _, rfl, v.owner, v.finished⟩
  have hown := (List.cons.inj (State.mk.inj hclose).2).1
  constructor
  · rw [w.above_eq, ← houter, add_zero]
  · have hreserved : 0 ≤ max spacing.nodeSize.height w.stack := reserved_nonneg hs w.own.height
    unfold stack stackHeight
    rw [← hown, ← houter, zero_add, add_sub_cancel_right, w.reserved_eq, Coordinate.larger_rat]
    exact max_eq_left hreserved

end Visit

end Packing

/-! ### Layouts -/

namespace Layout

section

variable {α : Type} [Coordinate α]

/-- A visit of a turn by the walk of an engine. -/
abbrev VisitOf (engine : Engine) (settings : LayoutSettings α) (g : Graph) (i : Fin g.size) :
    Type :=
  Packing.Visit g.adjacency (ranks engine settings g) settings.spacing (g.roots g.adjacency) i

/-- A turn that an engine has placed has a box. -/
def HasBox (engine : Engine) (settings : LayoutSettings α) (g : Graph) (i : Fin g.size)
    (box : Box α) : Prop :=
  ∃ column corner, (slots engine settings g).get i = .placed column corner ∧
    Box.ofCorner corner settings.spacing.nodeSize = box

variable {engine : Engine} {settings : LayoutSettings α} {g : Graph} {i : Fin g.size}
  {box : Box α}

/-- Where ids are distinct, the boxes are the bounds of the layout. -/
lemma bounds?_eq_some_iff (hg : g.UniqueIds) :
    (ofGraph engine settings g).bounds? (g.turns.get i).id = some box ↔
      HasBox engine settings g i box := by
  rw [ofGraph_eq, bounds?_ofSlots hg]
  constructor
  · rintro ⟨j, column, corner, hid, hslot, hbox⟩
    obtain rfl := hg.id_inj hid
    exact ⟨column, corner, hslot, hbox⟩
  · rintro ⟨column, corner, hslot, hbox⟩
    exact ⟨i, column, corner, rfl, hslot, hbox⟩

/-- A turn has a box exactly if it has a visit. -/
lemma exists_hasBox_iff :
    (∃ box, HasBox engine settings g i box) ↔ Nonempty (VisitOf engine settings g i) := by
  rw [← Packing.run_placed_iff_visit]
  constructor
  · rintro ⟨box, column, corner, hslot, -⟩
    exact ⟨column, corner, hslot⟩
  · rintro ⟨column, corner, hslot⟩
    exact ⟨_, column, corner, hslot, rfl⟩

/-- The box of a turn stands where its visit puts it. -/
lemma HasBox.eq_of_visit (h : HasBox engine settings g i box)
    (v : VisitOf engine settings g i) :
    box = .ofCorner (Packing.corner settings.spacing v.outer.column v.above v.stack)
      settings.spacing.nodeSize := by
  obtain ⟨column, corner, hslot, rfl⟩ := h
  cases hslot.symm.trans v.run_get
  rfl

end

/-- The bands of subtrees.  In exact arithmetic, with lengths that are not negative, and for both
engines: the turns with a box are those that are visited, once each.  The box of a turn and of every
turn that is placed during its visit lies inside the band of the visit.  A stack takes its siblings
in their order, and between the bands of two turns that it places one after the other there is one
gap, and one more for every sibling in between that has been met before.  A turn stands in the
middle of the stack of its children if that is at least as high as the turn, and at the top of its
band otherwise; and a turn stands level with its only child, if it places it itself.  Where ids are
distinct, the boxes are those of the layout. -/
theorem subtree_bands (g : Graph) (engine : Engine) (settings : LayoutSettings ℚ)
    (hs : settings.spacing.Nonneg) :
    (g.UniqueIds → ∀ (i : Fin g.size) (box : Box ℚ),
      (ofGraph engine settings g).bounds? (g.turns.get i).id = some box ↔
        HasBox engine settings g i box) ∧
    (∀ i : Fin g.size, (∃ box, HasBox engine settings g i box) ↔
      ∃ v : VisitOf engine settings g i, ∀ w, w = v) ∧
    (∀ (i : Fin g.size) (v : VisitOf engine settings g i), v.Places i ∧
      ∀ j, v.Places j → ∃ box, HasBox engine settings g j box ∧
        v.top ≤ box.minY ∧ box.maxY ≤ v.bottom) ∧
    (∀ (i : Fin g.size) (v : VisitOf engine settings g i),
      v.outer.met.reverse ++ i :: v.later = Packing.ordered (ranks engine settings g)
        (Packing.siblingsOf g.adjacency (g.roots g.adjacency) v.outer.owner)) ∧
    (∀ (i k : Fin g.size) (v : VisitOf engine settings g i) (w : VisitOf engine settings g k)
      (skipped : List (Fin g.size)), w.outer.owner = v.outer.owner →
      v.later = skipped ++ k :: w.later →
      (∀ m ∈ skipped, (v.left.slots.get m).isFree = false) →
      w.top = v.bottom + settings.spacing.rowGap * (1 + skipped.length)) ∧
    (∀ (i : Fin g.size) (v : VisitOf engine settings g i) (box : Box ℚ),
      HasBox engine settings g i box →
      (settings.spacing.nodeSize.height ≤ v.stack →
        (box.minY + box.maxY) / 2 = v.top + v.stack / 2) ∧
      (v.stack < settings.spacing.nodeSize.height → box.minY = v.top)) ∧
    (∀ (i k : Fin g.size) (w : VisitOf engine settings g k) (box box' : Box ℚ),
      g.adjacency.children.get i = [k] → w.outer.owner = some i →
      HasBox engine settings g i box → HasBox engine settings g k box' →
      box.minY = box'.minY) := by
  refine ⟨fun hg i box => bounds?_eq_some_iff hg, ?_, ?_, ?_, ?_, ?_, ?_⟩
  · intro i
    rw [exists_hasBox_iff]
    constructor
    · rintro ⟨v⟩
      exact ⟨v, fun w => w.unique v⟩
    · rintro ⟨v, -⟩
      exact ⟨v⟩
  · intro i v
    refine ⟨v.places_self, ?_⟩
    intro j hj
    obtain ⟨column, corner, hslot, hband⟩ := hj.within hs
    exact ⟨_, ⟨column, corner, hslot, rfl⟩, hband⟩
  · intro i v
    exact v.siblings
  · intro i k v w skipped howner hlater hmet
    exact v.top_of_skipped w howner hlater hmet
  · intro i v box hbox
    obtain rfl := hbox.eq_of_visit v
    constructor
    · intro hstack
      have hmiddle := Packing.corner_middle hstack v.outer.column v.above
      unfold Packing.Visit.top
      rw [← hmiddle]
      simp only [Box.ofCorner]
      ring
    · intro hstack
      exact Packing.corner_top hstack.le v.outer.column v.above
  · intro i k w box box' hchildren howner hbox hbox'
    obtain ⟨v⟩ := exists_hasBox_iff.mp ⟨box, hbox⟩
    obtain ⟨habove, hstack⟩ := v.only_child hs w hchildren howner
    obtain rfl := hbox.eq_of_visit v
    obtain rfl := hbox'.eq_of_visit w
    simp only [Box.ofCorner]
    rw [hstack, habove]
    exact Packing.corner_reserved _ _ _ _ _

/-- The second of three children has been placed from the first, so two gaps lie between the bands
of the first and the third; and the third stands level with its only child. -/
theorem subtree_bands_shared :
    let g : Graph :=
      { turns := [⟨"a", "a", .bot, "f"⟩, ⟨"b", "b", .user, "f"⟩, ⟨"c", "c", .bot, "f"⟩,
          ⟨"d", "d", .user, "f"⟩, ⟨"e", "e", .bot, "f"⟩]
        edges := [⟨"a", "b"⟩, ⟨"a", "c"⟩, ⟨"a", "d"⟩, ⟨"b", "c"⟩, ⟨"d", "e"⟩] }
    let settings : LayoutSettings ℚ := ⟨⟨⟨160, 69⟩, 100, 40⟩, ⟨0, 0, 0, none⟩⟩
    let b : Fin g.size := ⟨1, by decide⟩
    let d : Fin g.size := ⟨3, by decide⟩
    let e : Fin g.size := ⟨4, by decide⟩
    g.UniqueIds ∧ settings.spacing.Nonneg ∧ g.adjacency.children.get d = [e] ∧
      ∃ (v : VisitOf .basic settings g b) (w : VisitOf .basic settings g d)
        (u : VisitOf .basic settings g e) (box box' : Box ℚ), w.outer.owner = v.outer.owner ∧
        v.top ≤ 40 ∧ 109 ≤ v.bottom ∧ w.top = v.bottom + 40 * (1 + 1) ∧
        u.outer.owner = some d ∧ HasBox .basic settings g d box ∧
        HasBox .basic settings g e box' ∧ box.minY = box'.minY := by
  intro g settings b d e
  have hg : g.UniqueIds := by
    unfold Graph.UniqueIds
    decide
  have hs : settings.spacing.Nonneg := ⟨by decide, by decide, by decide, by decide⟩
  obtain ⟨hbounds, hvisit, hwithin, horder, hskipped, -, hlevel⟩ :=
    subtree_bands g .basic settings hs
  have hb := (hbounds hg b ⟨260, 40, 420, 109⟩).mp (by cbv)
  have hd := (hbounds hg d ⟨260, 189, 420, 258⟩).mp (by cbv)
  have he := (hbounds hg e ⟨520, 189, 680, 258⟩).mp (by cbv)
  obtain ⟨v, -⟩ := (hvisit b).mp ⟨_, hb⟩
  obtain ⟨w, -⟩ := (hvisit d).mp ⟨_, hd⟩
  obtain ⟨u, -⟩ := (hvisit e).mp ⟨_, he⟩
  -- Each of the three turns is the child of one turn only, so that one owns the stack.
  have howners : ∀ owner, let siblings := Packing.siblingsOf g.adjacency (g.roots g.adjacency) owner
      (b ∈ siblings ∨ d ∈ siblings → owner = some ⟨0, by decide⟩) ∧
      (e ∈ siblings → owner = some d) := by
    decide
  have hv := (howners _).1 (.inl v.mem_siblings)
  have hw := (howners _).1 (.inr w.mem_siblings)
  have hu := (howners _).2 u.mem_siblings
  have hvlater : [⟨2, by decide⟩, d] = v.later := by
    have hsiblings := horder b v
    have hchildren : [] ++ b :: [⟨2, by decide⟩, d] = g.adjacency.children.get ⟨0, by decide⟩ := by
      decide
    rw [hv] at hsiblings
    exact ((List.append_cons_inj_of_notMem (by decide) (by decide)).mp
      (hchildren.trans hsiblings.symm)).2.2
  have hwlater : [] = w.later := by
    have hsiblings := horder d w
    have hchildren : [b, ⟨2, by decide⟩] ++ d :: [] = g.adjacency.children.get ⟨0, by decide⟩ := by
      decide
    rw [hw] at hsiblings
    exact ((List.append_cons_inj_of_notMem (by decide) (by decide)).mp
      (hchildren.trans hsiblings.symm)).2.2
  have hgaps := hskipped b d v w [⟨2, by decide⟩] (hw.trans hv.symm)
    (by rw [← hvlater, ← hwlater]; rfl)
    (fun m hm => v.met_children (by rw [List.mem_singleton.mp hm]; decide))
  obtain ⟨box, hbox, htop, hbottom⟩ := (hwithin b v).2 b (hwithin b v).1
  cases ((hbounds hg b box).mpr hbox).symm.trans ((hbounds hg b _).mpr hb)
  refine ⟨hg, hs, by decide, v, w, u, _, _, hw.trans hv.symm, htop, hbottom, ?_, hu, hd, he,
    hlevel d e u _ _ (by decide) hu hd he⟩
  rw [hgaps]
  norm_num [settings]

end Layout

end DialogChart
