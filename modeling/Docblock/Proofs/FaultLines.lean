import Docblock.Proofs.Missing

/-!
# The lines of diagnostics

Lines are counted by line feeds. A diagnostic carries the line in which the reader stands when the
fault is noticed, and then the reader is right behind the lexeme that has been found, whether it has
been taken or only looked at. No lexeme goes over a line feed, so what has been found stands in that
line; and a reader that has found the end of the source stands in the last line.

## Main results

* `Text.exists_line_eq`: the line of a place shows what stands in front of it and behind it
* `Lexeme.lineFeed_notMem_scan`: no lexeme goes over a line feed
* `Document.walk_faults_in_lines`: where the diagnostics of a walk point to
-/

namespace Docblock

open Lexeme Reader

namespace Text

/-- The first line of a text goes up to its first line feed. -/
theorem head?_splitOn (t : Text) :
    (t.splitOn '\n').head? = some (t.takeWhile (· != '\n')) := by
  induction t with
  | nil => rfl
  | cons c t ih =>
    rw [List.splitOn_cons_eq_if_modifyHead]
    by_cases feed : c = '\n'
    · simp [feed]
    · simp [feed, List.head?_modifyHead, ih]

/-- **The line of a place** is the one with as many line feeds before it. It shows what stands in
front of the place since the last line feed, and what stands behind it up to the next one. -/
theorem exists_line_eq (front : Text) {word : Text} (within : '\n' ∉ word) (rest : Text) :
    ∃ left, ((front ++ (word ++ rest)).splitOn '\n')[front.count '\n']? =
      some (left ++ (word ++ rest.takeWhile (· != '\n'))) := by
  -- The induction passes the lines in front; what is left of the last one comes before the word.
  induction front with
  | nil =>
    have passed : ∀ c ∈ word, (c != '\n') = true := fun c inside =>
      bne_iff_ne.2 fun feed => within (feed ▸ inside)
    refine ⟨[], ?_⟩
    rw [List.count_nil, ← List.head?_eq_getElem?, List.nil_append, head?_splitOn,
      List.takeWhile_append_of_pos passed]
    rfl
  | cons c front ih =>
    obtain ⟨left, line⟩ := ih
    rw [List.cons_append, List.splitOn_cons_eq_if_modifyHead]
    by_cases feed : c = '\n'
    · refine ⟨left, ?_⟩
      rw [feed, List.count_cons_self, if_pos (by decide), List.getElem?_cons_succ, line]
    · rw [List.count_cons_of_ne feed, if_neg (by simpa using feed)]
      cases number : front.count '\n' with
      | zero =>
        -- The character is in the same line.
        rw [number] at line
        refine ⟨c :: left, ?_⟩
        rw [List.getElem?_modifyHead_zero, line]
        rfl
      | succ k =>
        rw [number] at line
        refine ⟨left, ?_⟩
        rw [List.getElem?_modifyHead_succ, line]

end Text

namespace Lexeme

/-- No line break stands behind a margin. -/
theorem isLineBreak_of_skipMargin {fresh : Bool} {t u : Text} {c : Char}
    (skipped : skipMargin fresh t = c :: u) : isLineBreak c = false :=
  (Bool.or_eq_false_iff.1 (separates_of_skipMargin skipped)).2

/-- **No lexeme goes over a line feed.** -/
theorem lineFeed_notMem_scan (t : Text) : '\n' ∉ (scan t).1.text := by
  intro feed
  exact absurd (separates_of_mem_text feed) (by decide)

theorem Precedes.lineFeed_notMem {source sign rest : Text}
    (precedes : (Lexeme.symbol sign).Precedes source rest) : '\n' ∉ sign := by
  obtain ⟨t, -, scanned⟩ := precedes
  have within := lineFeed_notMem_scan t
  rwa [scanned] at within

end Lexeme

namespace Reader

/-- The line of a reader is the number of the line feeds that it has passed, and one. -/
theorem line_of_further {source : Text} {r : Reader} (further : Further (.ofSource source) r)
    {front : Text} (whole : front ++ r.rest = source) : r.line = 1 + front.count '\n' := by
  have lastLine : r.lastLine = source.count '\n' + 1 := further.1
  rw [line, lastLine, ← whole, List.count_append]
  omega

end Reader

namespace Notice

variable {source : Text} {n : Notice}

/-- What is noticed at the end of the source is noticed with nothing left. -/
theorem rest_of_found_endOfSource (missing : n.OfName source ∨ n.OfEnd)
    (found : n.fault.found = .endOfSource) : n.place.rest = [] := by
  rcases missing with ofName | ofEnd
  · obtain ⟨t, -, scanned⟩ := ofName.precedes
    rw [found] at scanned
    have nothing := scan_rest_of_eq_endOfSource (congrArg Prod.fst scanned)
    rwa [scanned] at nothing
  · exact ofEnd.nothing

theorem line_eq (missing : n.OfName source ∨ n.OfEnd) : n.fault.line = n.place.line := by
  rcases missing with ofName | ofEnd
  · exact ofName.line
  · rw [ofEnd.fault]

/-- **What is found stands in the line of the diagnostic**, right in front of the reader. -/
theorem exists_line_of_found_ne (further : Further (.ofSource source) n.place)
    (missing : n.OfName source ∨ n.OfEnd) (found : n.fault.found ≠ .endOfSource) :
    n.fault.foundText ++ n.place.rest <:+ source ∧
      ∃ left, (source.splitOn '\n')[n.fault.line - 1]? =
        some (left ++ (n.fault.foundText ++ n.place.rest.takeWhile (· != '\n'))) := by
  rcases missing with ofName | ofEnd
  · rcases ofName.found_cases with ended | ⟨sign, precedes, isSymbol⟩
    · exact absurd ended found
    · have within := precedes.lineFeed_notMem
      have shown : n.fault.foundText = sign := by
        rw [Diagnostic.foundText, isSymbol]
        rfl
      obtain ⟨front, whole⟩ := precedes.append_suffix
      have line : n.place.line = 1 + (front ++ sign).count '\n' :=
        line_of_further further (by rw [List.append_assoc]; exact whole)
      rw [List.count_append, List.count_eq_zero.2 within] at line
      obtain ⟨left, same⟩ := Text.exists_line_eq front within n.place.rest
      have number : n.fault.line - 1 = front.count '\n' := by
        rw [ofName.line, line]
        omega
      rw [shown]
      refine ⟨⟨front, whole⟩, left, ?_⟩
      rw [number, ← same]
      congr 2
      exact whole.symm
  · rw [ofEnd.fault] at found
    exact absurd rfl found

end Notice

namespace Document

open Block

/-- **Diagnostics point at the right line.** Each diagnostic of a walk is noticed at a place, and
carries the line of that place; so the lines do not decrease. What has been found stands in that
line and ends at the place, and the end of the source is found in the last line. -/
theorem walk_faults_in_lines (d : Document) (source : Text) :
    (d.walk source).faults = (noticesFrom (.ofSource source)).map (·.fault) ∧
      ((d.walk source).faults.map (·.line)).Pairwise (· ≤ ·) ∧
      ∀ n ∈ noticesFrom (.ofSource source),
        n.fault.line = n.place.line ∧
        1 ≤ n.fault.line ∧ n.fault.line ≤ 1 + source.count '\n' ∧
        (n.fault.found = .endOfSource → n.fault.line = 1 + source.count '\n') ∧
        (n.fault.found ≠ .endOfSource →
          n.fault.foundText ++ n.place.rest <:+ source ∧
          ∃ left, (source.splitOn '\n')[n.fault.line - 1]? =
            some (left ++ (n.fault.foundText ++ n.place.rest.takeWhile (· != '\n')))) := by
  obtain ⟨ordered, behind⟩ := pairwise_noticesFrom (.ofSource source)
  have missing {n : Notice} (noticed : n ∈ noticesFrom (.ofSource source)) :
      n.OfName source ∨ n.OfEnd := ofName_or_ofEnd_of_mem noticed
  rw [walk_faults, ← map_fault_noticesFrom]
  refine ⟨rfl, ?_, ?_⟩
  · rw [List.map_map, List.pairwise_map]
    refine List.Pairwise.imp_of_mem ?_ ordered
    intro a b first second further
    show a.fault.line ≤ b.fault.line
    rw [Notice.line_eq (missing first), Notice.line_eq (missing second)]
    exact further.line_le
  · intro n noticed
    have line := Notice.line_eq (missing noticed)
    obtain ⟨front, whole⟩ := (behind n noticed).2
    have passed := line_of_further (behind n noticed) whole
    have feeds : source.count '\n' = front.count '\n' + n.place.rest.count '\n' := by
      rw [← List.count_append]
      exact congrArg _ whole.symm
    refine ⟨line, by omega, by omega, ?_, ?_⟩
    · intro found
      rw [Notice.rest_of_found_endOfSource (missing noticed) found, List.count_nil] at feeds
      omega
    · exact Notice.exists_line_of_found_ne (behind n noticed) (missing noticed)

end Document

end Docblock
