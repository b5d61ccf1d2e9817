import Docblock.Proofs.Composed

/-!
# Where the blocks of a source start

Reading a source goes from block to block: it looks for an opening, reads the block behind it, and
looks for the next opening from the place that the block has been read to. The readers behind these
openings are the run of the source, and a block is what stands at one of them.

## Main definitions

* `Block.starts`: the readers behind the openings of the blocks, in order
* `Reader.firstStart?`: the reader behind the first opening from here on

## Main results

* `run_induction`: induction along the run of a source
* `readAll_eq_map_starts`: the blocks of a source are what stands at its starts
* `eq_starts_of_starts_eq`: what follows a start is the run from the place its block is read to
* `held_of_mem_starts`: no lexeme is held at a start
-/

namespace Docblock

/-- The reader behind the first opening from here on, if there is one. -/
def Reader.firstStart? (r : Reader) : Option Reader :=
  (behindFirst opening r.rest).map fun u => ⟨r.lastLine, u, none⟩

theorem Reader.seekBlock_of_firstStart?_eq_some {r s : Reader} (h : r.firstStart? = some s) :
    r.seekBlock = (.symbol opening, s) := by
  obtain ⟨u, found, rfl⟩ := Option.map_eq_some_iff.1 h
  rw [seekBlock, afterOpening_eq_behindFirst, found]

theorem Reader.seekBlock_of_firstStart?_eq_none {r : Reader} (h : r.firstStart? = none) :
    r.seekBlock.1 = .endOfSource := by
  rw [seekBlock, afterOpening_eq_behindFirst, Option.map_eq_none_iff.1 h]

/-- The first start stands behind an opening, in the same source, and holds no lexeme. -/
theorem Reader.firstStart?_spec {r s : Reader} (h : r.firstStart? = some s) :
    s.lastLine = r.lastLine ∧ s.held = none ∧ opening ++ s.rest <:+ r.rest := by
  obtain ⟨u, found, rfl⟩ := Option.map_eq_some_iff.1 h
  exact ⟨rfl, rfl, behindFirst_suffix found⟩

namespace Block

/-- **Reading a block stays in its source.** -/
theorem lastLine_read (r : Reader) : (read r).2.lastLine = r.lastLine :=
  reached_read (Reading.alongSteps_lastLine true) r

/-- A block is read to a place behind its opening. -/
theorem length_rest_read_lt {r s : Reader} (h : r.firstStart? = some s) :
    (read s).2.rest.length < r.rest.length := by
  obtain ⟨-, -, inside⟩ := Reader.firstStart?_spec h
  have short := (read_rest_suffix s).length_le
  have long := inside.length_le
  simp only [opening, List.length_append, List.length_cons, List.length_nil] at long
  omega

/-- **Induction along the run of a source**: from the place that a block is read to, to the place
in front of it. -/
theorem run_induction {motive : Reader → Prop}
    (ended : ∀ r, r.firstStart? = none → motive r)
    (started : ∀ r s, r.firstStart? = some s → motive (read s).2 → motive r) (r : Reader) :
    motive r := by
  induction length : r.rest.length using Nat.strong_induction_on generalizing r with
  | _ n ih =>
    cases h : r.firstStart? with
    | none => exact ended r h
    | some s => exact started r s h (ih _ (length ▸ length_rest_read_lt h) _ rfl)

/-- The readers behind the openings of the blocks from here on, in order. -/
def starts (r : Reader) : List Reader :=
  if _ : r.seekBlock.1 = .endOfSource then []
  else r.seekBlock.2 :: starts (read r.seekBlock.2).2
termination_by r.rest.length
decreasing_by
  have taken := Reader.length_seekBlock_rest_lt ‹_›
  have behind := (read_rest_suffix r.seekBlock.2).length_le
  omega

/-- **The blocks from here on are what stands at the starts.** -/
theorem readAll_eq_map_starts (r : Reader) : readAll r = (starts r).map fun s => (read s).1 := by
  fun_induction starts r with
  | case1 r ended => rw [readAll, dif_pos ended, List.map_nil]
  | case2 r found ih => rw [readAll, dif_neg found, List.map_cons, ← ih]

theorem starts_of_firstStart?_eq_some {r s : Reader} (h : r.firstStart? = some s) :
    starts r = s :: starts (read s).2 := by
  rw [starts, Reader.seekBlock_of_firstStart?_eq_some h, dif_neg (by simp)]

theorem starts_of_firstStart?_eq_none {r : Reader} (h : r.firstStart? = none) :
    starts r = [] := by
  rw [starts, dif_pos (Reader.seekBlock_of_firstStart?_eq_none h)]

/-- The run goes on at the first opening. -/
theorem head?_starts (r : Reader) : (starts r).head? = r.firstStart? := by
  cases h : r.firstStart? with
  | none => rw [starts_of_firstStart?_eq_none h, List.head?_nil]
  | some s => rw [starts_of_firstStart?_eq_some h, List.head?_cons]

/-- The first block from here on, and the blocks from the place that it is read to. -/
theorem readAll_of_firstStart?_eq_some {r s : Reader} (h : r.firstStart? = some s) :
    readAll r = (read s).1 :: readAll (read s).2 := by
  rw [readAll_eq_map_starts, starts_of_firstStart?_eq_some h, List.map_cons,
    ← readAll_eq_map_starts]

theorem readAll_of_firstStart?_eq_none {r : Reader} (h : r.firstStart? = none) :
    readAll r = [] := by
  rw [readAll_eq_map_starts, starts_of_firstStart?_eq_none h, List.map_nil]

/-- The blocks from here on depend on the first opening alone. -/
theorem readAll_congr {r s : Reader} (same : r.firstStart? = s.firstStart?) :
    readAll r = readAll s := by
  cases h : s.firstStart? with
  | none =>
    rw [readAll_of_firstStart?_eq_none (same.trans h), readAll_of_firstStart?_eq_none h]
  | some t =>
    rw [readAll_of_firstStart?_eq_some (same.trans h), readAll_of_firstStart?_eq_some h]

/-- The blocks of a source in which one block opens, and none behind it. -/
theorem ofSource_eq_singleton {source : Text} {r s : Reader} {b : Block}
    (first : (Reader.ofSource source).firstStart? = some r) (same : read r = (b, s))
    (last : s.firstStart? = none) : ofSource source = [b] := by
  rw [ofSource, readAll_of_firstStart?_eq_some first, same, readAll_of_firstStart?_eq_none last]

/-- **What follows a start** is the run from the place that its block is read to. -/
theorem eq_starts_of_starts_eq {r s : Reader} {before after : List Reader}
    (run : starts r = before ++ s :: after) : after = starts (read s).2 := by
  -- The induction passes the blocks that start before `s`.
  induction before generalizing r with
  | nil =>
    cases h : r.firstStart? with
    | none => simp [starts_of_firstStart?_eq_none h] at run
    | some t =>
      rw [starts_of_firstStart?_eq_some h] at run
      obtain ⟨rfl, rest⟩ := List.cons.inj run
      exact rest.symm
  | cons b before ih =>
    cases h : r.firstStart? with
    | none => simp [starts_of_firstStart?_eq_none h] at run
    | some t =>
      rw [starts_of_firstStart?_eq_some h] at run
      exact ih (List.cons.inj run).2

/-- **A run never goes back.** -/
theorem rest_suffix_of_mem_starts {r s : Reader} (h : s ∈ starts r) : s.rest <:+ r.rest := by
  fun_induction starts r with
  | case1 r ended => simp at h
  | case2 r found ih =>
    rcases List.mem_cons.1 h with rfl | h
    · exact r.seekBlock_rest_suffix
    · exact (ih h).trans ((read_rest_suffix _).trans r.seekBlock_rest_suffix)

/-- A run has a first start, which is in front of all the others. -/
theorem exists_firstStart?_of_mem_starts {r s : Reader} (h : s ∈ starts r) :
    ∃ p, r.firstStart? = some p ∧ s.rest <:+ p.rest := by
  cases first : r.firstStart? with
  | none => simp [starts_of_firstStart?_eq_none first] at h
  | some p =>
    refine ⟨p, rfl, ?_⟩
    rw [starts_of_firstStart?_eq_some first, List.mem_cons] at h
    rcases h with rfl | h
    · exact List.suffix_rfl
    · exact (rest_suffix_of_mem_starts h).trans (read_rest_suffix p)

/-- **No lexeme is held at a start.** -/
theorem held_of_mem_starts {r s : Reader} (h : s ∈ starts r) : s.held = none := by
  fun_induction starts r with
  | case1 r ended => simp at h
  | case2 r found ih =>
    rcases List.mem_cons.1 h with rfl | h
    · exact r.seekBlock_held
    · exact ih h

end Block

end Docblock
