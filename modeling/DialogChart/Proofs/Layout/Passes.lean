import DialogChart.Proofs.Coordinate
import DialogChart.Proofs.Layout.Coverage
import Mathlib

/-!
# Whole passes and early stops

A relaxation makes a number of passes, and with a threshold it may stop before the last one.  This
file separates the two: what a number of whole passes does to the ranks (`after`, `longestMoves`),
and at which pass a threshold stops (`stopAt`), which is read off the longest moves alone.

The loop of passes is described by one equation for each case, `passes_eq_after` without a
threshold and `passes_eq_stopAt` with one.  So a relaxation with a threshold is a prefix of the
relaxation without it, and a larger threshold gives a shorter one (`early_stop_cuts_passes`).
-/

namespace DialogChart

namespace Relaxation

variable {α : Type} [Coordinate α] {n : Nat}

/-! ### The first ranks -/

/-- The first rank of a turn is one of its places in the preorder. -/
lemma exists_place_of_start {order : List (Fin n × Nat)} {i : Fin n} {rank : α}
    (h : (start order : Ranks α n).get i = some rank) :
    ∃ place, (i, place) ∈ order ∧ rank = Coordinate.ofCount place := by
  have hfold : ∀ first : Ranks α n, (∀ rank, first.get i = some rank →
      ∃ place, (i, place) ∈ order ∧ rank = Coordinate.ofCount place) →
      ∀ entries ⊆ order, ∀ rank, (entries.foldl (fun ranks entry =>
        ranks.set entry.1 (some (Coordinate.ofCount entry.2)) entry.1.isLt) first).get i =
          some rank → ∃ place, (i, place) ∈ order ∧ rank = Coordinate.ofCount place := by
    intro first hfirst entries
    induction entries generalizing first with
    | nil =>
      intro _
      exact hfirst
    | cons entry rest ih =>
      intro hsub
      obtain ⟨hentry, hrest⟩ := List.cons_subset.mp hsub
      refine ih _ (fun rank hrank => ?_) hrest
      rw [get_set] at hrank
      split at hrank
      · rename_i hi
        obtain rfl := Option.some.inj hrank
        exact ⟨entry.2, hi ▸ hentry, rfl⟩
      · exact hfirst rank hrank
  refine hfold (.replicate n none) (fun rank hrank => ?_) order (List.Subset.refl _) rank h
  rw [get_replicate] at hrank
  cases hrank

/-! ### Whole passes -/

section Whole

variable (onePass : Ranks α n → Ranks α n × α)

/-- The ranks after a number of whole passes. -/
def after (k : Nat) (ranks : Ranks α n) : Ranks α n :=
  (fun ranks => (onePass ranks).1)^[k] ranks

/-- The longest move of each of a number of whole passes. -/
def longestMoves : Nat → Ranks α n → List α
  | 0, _ => []
  | k + 1, ranks => (onePass ranks).2 :: longestMoves k (onePass ranks).1

omit [Coordinate α] in
@[simp] lemma after_zero (ranks : Ranks α n) : after onePass 0 ranks = ranks :=
  rfl

omit [Coordinate α] in
lemma after_succ (k : Nat) (ranks : Ranks α n) :
    after onePass (k + 1) ranks = after onePass k (onePass ranks).1 :=
  rfl

omit [Coordinate α] in
/-- Passes may be counted from any of them. -/
lemma after_add_succ (k m : Nat) (ranks : Ranks α n) :
    after onePass (k + m + 1) ranks = after onePass m (onePass (after onePass k ranks)).1 := by
  have hcount : k + m + 1 = m + (k + 1) := by omega
  unfold after
  rw [hcount, Function.iterate_add_apply, Function.iterate_succ_apply']

omit [Coordinate α] in
@[simp] lemma length_longestMoves (k : Nat) (ranks : Ranks α n) :
    (longestMoves onePass k ranks).length = k := by
  induction k generalizing ranks with
  | zero => rfl
  | succ k ih => rw [longestMoves, List.length_cons, ih]

omit [Coordinate α] in
/-- The longest moves of fewer passes are the first of those of more passes. -/
lemma take_longestMoves {j k : Nat} (h : j ≤ k) (ranks : Ranks α n) :
    (longestMoves onePass k ranks).take j = longestMoves onePass j ranks := by
  induction k generalizing j ranks with
  | zero =>
    obtain rfl := Nat.le_zero.mp h
    rfl
  | succ k ih =>
    cases j with
    | zero => rfl
    | succ j => rw [longestMoves, List.take_succ_cons, ih (Nat.le_of_succ_le_succ h), longestMoves]

omit [Coordinate α] in
/-- The longest moves are those of the passes that are made one after the other. -/
lemma exists_of_mem_longestMoves {k : Nat} {ranks : Ranks α n} {longest : α}
    (h : longest ∈ longestMoves onePass k ranks) :
    ∃ j < k, longest = (onePass (after onePass j ranks)).2 := by
  induction k generalizing ranks with
  | zero => cases h
  | succ k ih =>
    rw [longestMoves, List.mem_cons] at h
    rcases h with rfl | h
    · exact ⟨0, Nat.succ_pos k, rfl⟩
    · obtain ⟨j, hj, hlongest⟩ := ih h
      exact ⟨j + 1, Nat.succ_lt_succ hj, hlongest⟩

end Whole

/-- Without a threshold all passes are made. -/
lemma passes_eq_after (tension : Tension α) (springs : Springs n) (order : List (Fin n × Nat))
    (h : tension.threshold = none) (k : Nat) (ranks : Ranks α n) (done : List α) :
    passes tension springs order k ranks done =
      ⟨after (pass tension springs order) k ranks,
        done.reverse ++ longestMoves (pass tension springs order) k ranks, false⟩ := by
  induction k generalizing ranks done with
  | zero => rw [longestMoves, List.append_nil, passes, after_zero]
  | succ k ih =>
    have hgoes : ¬ settled tension (pass tension springs order ranks).2 = true := by
      rw [settled, h]
      exact Bool.false_ne_true
    rw [passes_succ, if_neg hgoes, ih, List.reverse_cons, List.append_assoc, after_succ,
      longestMoves]
    rfl

/-! ### Stopping at a threshold -/

/-- The number of the pass at which a threshold stops, by the longest moves of the passes: the first
pass that moves nothing by more than the threshold, or the last pass. -/
def stopAt (threshold : α) : List α → Nat
  | [] => 0
  | longest :: rest =>
    if Coordinate.atMost longest threshold = true then 1 else stopAt threshold rest + 1

variable {threshold : α}

/-- No more passes are made than there are. -/
lemma stopAt_le_length (moves : List α) : stopAt threshold moves ≤ moves.length := by
  induction moves with
  | nil => exact Nat.le_refl 0
  | cons longest rest ih =>
    rw [stopAt, List.length_cons]
    split
    · omega
    · omega

/-- The passes are stopped no later than at a pass that moves nothing by more than the threshold. -/
lemma stopAt_le_of_atMost {moves : List α} {j : Nat} {longest : α} (hj : moves[j]? = some longest)
    (hlongest : Coordinate.atMost longest threshold = true) : stopAt threshold moves ≤ j + 1 := by
  induction moves generalizing j with
  | nil => cases hj
  | cons first rest ih =>
    rw [stopAt]
    split
    · omega
    · rename_i hfirst
      cases j with
      | zero =>
        obtain rfl := Option.some.inj hj
        exact absurd hlongest hfirst
      | succ j => exact Nat.succ_le_succ (ih hj)

/-- Passes that are stopped before their end are stopped at a pass that moves nothing by more than
the threshold. -/
lemma exists_atMost_stopAt {moves : List α}
    (h : moves.any (fun longest => Coordinate.atMost longest threshold) = true) :
    0 < stopAt threshold moves ∧ ∃ longest, moves[stopAt threshold moves - 1]? = some longest ∧
      Coordinate.atMost longest threshold = true := by
  induction moves with
  | nil => cases h
  | cons first rest ih =>
    rw [stopAt]
    split
    · rename_i hfirst
      exact ⟨Nat.one_pos, first, rfl, hfirst⟩
    · rename_i hfirst
      rw [List.any_cons, Bool.or_eq_true] at h
      obtain ⟨hpos, longest, hget, hlongest⟩ := ih (h.resolve_left hfirst)
      refine ⟨Nat.succ_pos _, longest, ?_, hlongest⟩
      obtain ⟨k, hk⟩ := Nat.exists_eq_succ_of_ne_zero hpos.ne'
      rw [hk] at hget ⊢
      exact hget

/-- Where no pass is stopped at, the last pass is made. -/
lemma stopAt_eq_length {moves : List α}
    (h : moves.any (fun longest => Coordinate.atMost longest threshold) = false) :
    stopAt threshold moves = moves.length := by
  induction moves with
  | nil => rfl
  | cons first rest ih =>
    rw [List.any_cons, Bool.or_eq_false_iff] at h
    rw [stopAt, if_neg (Bool.not_eq_true _ ▸ h.1), ih h.2, List.length_cons]

/-- A larger threshold does not stop later. -/
lemma stopAt_anti
    (htrans : ∀ a b c : α, Coordinate.atMost a b = true → Coordinate.atMost b c = true →
      Coordinate.atMost a c = true)
    {other : α} (h : Coordinate.atMost threshold other = true) (moves : List α) :
    stopAt other moves ≤ stopAt threshold moves := by
  induction moves with
  | nil => exact Nat.le_refl 0
  | cons first rest ih =>
    rw [stopAt, stopAt]
    split
    · split <;> omega
    · rename_i hother
      rw [if_neg fun hfirst => hother (htrans _ _ _ hfirst h)]
      exact Nat.succ_le_succ ih

/-- With a threshold the passes are made up to the one at which it stops. -/
lemma passes_eq_stopAt (tension : Tension α) (springs : Springs n) (order : List (Fin n × Nat))
    (h : tension.threshold = some threshold) (k : Nat) (ranks : Ranks α n) (done : List α) :
    let moves := longestMoves (pass tension springs order) k ranks
    passes tension springs order k ranks done =
      ⟨after (pass tension springs order) (stopAt threshold moves) ranks,
        done.reverse ++ longestMoves (pass tension springs order) (stopAt threshold moves) ranks,
        moves.any fun longest => Coordinate.atMost longest threshold⟩ := by
  intro moves
  induction k generalizing ranks done with
  | zero => exact congrArg (fun l => Outcome.mk ranks l false) (List.append_nil _).symm
  | succ k ih =>
    have hsettled : settled tension (pass tension springs order ranks).2 =
        Coordinate.atMost (pass tension springs order ranks).2 threshold := by
      rw [settled, h]
    rw [passes_succ, hsettled]
    unfold moves
    rw [longestMoves, stopAt, List.any_cons]
    split
    · rename_i hstop
      rw [hstop, Bool.true_or, after_succ, after_zero, longestMoves, longestMoves,
        List.reverse_cons]
    · rename_i hgoes
      rw [ih, Bool.eq_false_of_not_eq_true hgoes, Bool.false_or, after_succ, longestMoves,
        List.reverse_cons, List.append_assoc]
      rfl

/-- With or without a threshold, the outcome is that of a number of whole passes. -/
lemma exists_run_eq (tension : Tension α) (g : Graph) (adj : Adjacency g.size)
    (roots : List (Fin g.size)) :
    let onePass := pass tension (springs g adj) (adj.preorder roots)
    ∃ k ≤ tension.iterations, ∃ converged, run tension g adj roots =
      ⟨after onePass k (start (adj.preorder roots)),
        longestMoves onePass k (start (adj.preorder roots)), converged⟩ := by
  intro onePass
  cases h : tension.threshold with
  | none => exact ⟨_, Nat.le_refl _, _, passes_eq_after tension _ _ h _ _ []⟩
  | some threshold =>
    refine ⟨_, ?_, _, passes_eq_stopAt tension _ _ h _ _ []⟩
    exact (stopAt_le_length _).trans_eq (length_longestMoves onePass _ _)

/-! ### Early stops -/

/-- The passes, counted from one, that move nothing by more than a threshold. -/
def settling (moves : List α) (threshold : α) : Set Nat :=
  {j | 1 ≤ j ∧ j ≤ moves.length ∧
    ∃ longest, moves[j - 1]? = some longest ∧ Coordinate.atMost longest threshold = true}

/-- Some pass moves nothing by more than a threshold exactly if such a pass can be found. -/
lemma any_atMost_iff (moves : List α) (threshold : α) :
    (moves.any fun longest => Coordinate.atMost longest threshold) = true ↔
      (settling moves threshold).Nonempty := by
  constructor
  · intro h
    obtain ⟨hpos, hstop⟩ := exists_atMost_stopAt h
    exact ⟨_, hpos, stopAt_le_length moves, hstop⟩
  · rintro ⟨j, -, -, longest, hget, hlongest⟩
    exact List.any_eq_true.mpr ⟨longest, List.mem_of_getElem? hget, hlongest⟩

/-- A threshold stops at the first pass that moves nothing by more than it, and at the last pass
where there is none. -/
lemma stopAt_isLeast (moves : List α) (threshold : α) :
    IsLeast (settling moves threshold) (stopAt threshold moves) ∨
      settling moves threshold = ∅ ∧ stopAt threshold moves = moves.length := by
  cases h : moves.any fun longest => Coordinate.atMost longest threshold with
  | true =>
    obtain ⟨hpos, hstop⟩ := exists_atMost_stopAt h
    refine .inl ⟨⟨hpos, stopAt_le_length moves, hstop⟩, ?_⟩
    rintro j ⟨hj, -, longest, hget, hlongest⟩
    have hle := stopAt_le_of_atMost hget hlongest
    omega
  | false =>
    refine .inr ⟨?_, stopAt_eq_length h⟩
    rw [← Set.not_nonempty_iff_eq_empty, ← any_atMost_iff, h]
    exact Bool.false_ne_true

/-- Stopping early is making fewer passes.  Whatever the graph, the stiffnesses, the number of
passes and the arithmetic are, there is for every threshold a number of passes such that the
relaxation with the threshold leaves the ranks of the relaxation that makes this number of passes
and has no threshold.  Its longest moves are the first ones of all passes.  The number is that of
the first pass that, in the relaxation without a threshold, moves nothing by more than the
threshold, and that of all passes if there is none.  If the order of lengths is transitive, a larger
threshold does not give a larger number. -/
theorem early_stop_cuts_passes (g : Graph) (adj : Adjacency g.size) (roots : List (Fin g.size))
    (edge flow : α) (count : Nat) :
    let full := run ⟨edge, flow, count, none⟩ g adj roots
    full.longest.length = count ∧
    ∃ stop : α → Nat,
      (∀ t, IsLeast (settling full.longest t) (stop t) ∨
        settling full.longest t = ∅ ∧ stop t = count) ∧
      (∀ t, let early := run ⟨edge, flow, count, some t⟩ g adj roots
        early.ranks = (run ⟨edge, flow, stop t, none⟩ g adj roots).ranks ∧
          early.longest = full.longest.take (stop t) ∧
          (early.converged = true ↔ (settling full.longest t).Nonempty)) ∧
      ((∀ a b c : α, Coordinate.atMost a b = true → Coordinate.atMost b c = true →
          Coordinate.atMost a c = true) →
        ∀ t t', Coordinate.atMost t t' = true → stop t' ≤ stop t) := by
  intro full
  set order := adj.preorder roots
  -- A pass looks at the stiffnesses only, so it is the same in all these relaxations.
  let onePass : Ranks α g.size → Ranks α g.size × α :=
    pass ⟨edge, flow, count, none⟩ (springs g adj) order
  let moves := longestMoves onePass count (start order)
  have hfull : ∀ k, run ⟨edge, flow, k, none⟩ g adj roots =
      ⟨after onePass k (start order), longestMoves onePass k (start order), false⟩ := by
    intro k
    exact passes_eq_after ⟨edge, flow, k, none⟩ (springs g adj) order rfl k (start order) []
  have hearly : ∀ t, run ⟨edge, flow, count, some t⟩ g adj roots =
      ⟨after onePass (stopAt t moves) (start order),
        longestMoves onePass (stopAt t moves) (start order),
        moves.any fun longest => Coordinate.atMost longest t⟩ := by
    intro t
    exact passes_eq_stopAt ⟨edge, flow, count, some t⟩ (springs g adj) order rfl count
      (start order) []
  have hmoves : full.longest = moves := congrArg Outcome.longest (hfull count)
  have hlength : moves.length = count := length_longestMoves onePass count (start order)
  rw [hmoves]
  refine ⟨hlength, fun t => stopAt t moves, ?_, ?_, ?_⟩
  · intro t
    rw [← hlength]
    exact stopAt_isLeast moves t
  · intro t
    have hstop : stopAt t moves ≤ count := hlength ▸ stopAt_le_length moves
    rw [hearly, hfull]
    exact ⟨rfl, (take_longestMoves onePass hstop _).symm, any_atMost_iff moves t⟩
  · intro htrans t t' ht
    exact stopAt_anti htrans ht moves

/-- Of three passes over a turn with two children the second is the first one that moves nothing by
more than an eighth, so a relaxation with this threshold makes two passes, and one with a larger
threshold makes no more. -/
theorem early_stop_cuts_passes_second :
    let g : Graph :=
      { turns := [⟨"a", "a", .bot, "f"⟩, ⟨"b", "b", .user, "f"⟩, ⟨"c", "c", .user, "h"⟩]
        edges := [⟨"a", "b"⟩, ⟨"a", "c"⟩] }
    let relaxed (count : Nat) (threshold : Option ℚ) : Outcome ℚ g.size :=
      run ⟨1 / 2, 1 / 4, count, threshold⟩ g g.adjacency (g.roots g.adjacency)
    (relaxed 3 none).longest = [1 / 2, 15 / 128, 99 / 2048] ∧
      (relaxed 3 (some (1 / 8))).ranks = (relaxed 2 none).ranks ∧
      (relaxed 3 (some (1 / 8))).longest = [1 / 2, 15 / 128] ∧
      (relaxed 3 (some (1 / 8))).converged = true ∧
      ∃ k ≤ 2, (relaxed 3 (some (1 / 4))).ranks = (relaxed k none).ranks := by
  intro g relaxed
  have hlongest : (relaxed 3 none).longest = [1 / 2, 15 / 128, 99 / 2048] := by cbv
  obtain ⟨-, stop, hstop, hearly, hanti⟩ :=
    early_stop_cuts_passes g g.adjacency (g.roots g.adjacency) (1 / 2 : ℚ) (1 / 4) 3
  have hsecond : 2 ∈ settling (relaxed 3 none).longest (1 / 8) := by
    rw [hlongest]
    exact ⟨by decide, by decide, 15 / 128, rfl, by norm_num⟩
  have hfirst : 1 ∉ settling (relaxed 3 none).longest (1 / 8) := by
    rw [hlongest]
    rintro ⟨-, -, longest, hget, hle⟩
    cases hget
    norm_num at hle
  have htwo : stop (1 / 8) = 2 := by
    rcases hstop (1 / 8) with hleast | ⟨hempty, -⟩
    · have hle : stop (1 / 8) ≤ 2 := hleast.2 hsecond
      have hpos : 1 ≤ stop (1 / 8) := hleast.1.1
      have hne : stop (1 / 8) ≠ 1 := fun hone => hfirst (hone ▸ hleast.1)
      omega
    · exact absurd hsecond (hempty ▸ Set.notMem_empty 2)
  have hlarger : stop (1 / 4) ≤ stop (1 / 8) := by
    refine hanti (fun a b c hab hbc => ?_) _ _ (by norm_num)
    exact decide_eq_true ((of_decide_eq_true hab).trans (of_decide_eq_true hbc))
  obtain ⟨hranks, hmoves, hconverged⟩ := hearly (1 / 8)
  rw [htwo] at hranks hmoves hlarger
  refine ⟨hlongest, hranks, ?_, hconverged.mpr ⟨2, hsecond⟩, stop (1 / 4), hlarger,
    (hearly (1 / 4)).1⟩
  rw [hmoves]
  exact congrArg (List.take 2) hlongest

end Relaxation

end DialogChart
