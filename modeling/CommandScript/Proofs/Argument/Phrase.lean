import CommandScript.Proofs.Argument.Word
import CommandScript.Proofs.CompoundTag.Emission

/-!
Any text can be quoted.

A text of one line that is put in quotes (`quoted`) is one word of a line, one string to whoever
reads phrases, and one string as a value in a compound tag, whatever stands in it
(`Argument.quoted_is_read`). Conversely, of the words that begin with a quote only those are
accepted as phrases that end at the first quote of that kind that no backslash protects
(`Argument.StringKind.checkQuoted_errors_iff`).
-/

namespace CommandScript

/-- What a cursor reads is what a step of a reading does, but for where it stands after an
error. -/
theorem Reading.readQuoted_run (c : Cursor) :
    Reading.readQuoted c =
      ⟨c.readQuoted.value.1.map (·, c.readQuoted.value.2), c.readQuoted.report⟩ :=
  congrArg (Reported.mk _) (Report.append_empty c.readQuoted.report)

namespace Argument

namespace StringKind

variable {word : Slice} {quote : Char} {body : List Char}

/-- A quoted string that makes up all of a word is highlighted as a whole. -/
theorem checkQuoted_report (isQuote : Charset.isQuote quote = true)
    (inside : QuotedBody quote body) (text : word.text = quote :: (body ++ [quote])) :
    (checkQuoted word).report = ⟨[], [], [⟨word.span, .string⟩]⟩ := by
  have front : (Cursor.ofSlice word).rest = ⟨quote :: (body ++ [quote]) ++ [], word.start⟩ := by
    rw [List.append_nil]
    exact congrArg (Slice.mk · word.start) text
  have read := Reading.emits_readQuoted isQuote inside word.start [] _ front
  rw [Reading.readQuoted_run] at read
  unfold checkQuoted
  generalize (Cursor.ofSlice word).readQuoted = outcome at read ⊢
  rcases outcome with ⟨⟨found, after⟩, report⟩
  obtain ⟨value, rfl⟩ := Reported.mk.inj read
  obtain ⟨taken, rfl, same⟩ := Option.map_eq_some_iff.1 value
  obtain ⟨rfl, rfl⟩ := Prod.mk.inj same
  rw [← text]
  rfl

/-- A word that begins with a quote is accepted exactly if the first quote of that kind that
no backslash protects is its last character. -/
theorem checkQuoted_errors_iff {cs : List Char} (isQuote : Charset.isQuote quote = true)
    (front : word.text = quote :: cs) :
    (checkQuoted word).report.errors = [] ↔
      ∃ body, QuotedBody quote body ∧ word.text = quote :: (body ++ [quote]) := by
  constructor
  · intro silent
    have recognized := CompoundTag.recognized_readQuoted (c := .ofSlice word) front
    rw [Reading.readQuoted_run] at recognized
    unfold checkQuoted at silent
    generalize (Cursor.ofSlice word).readQuoted = outcome at recognized silent
    rcases outcome with ⟨⟨found, behind⟩, report⟩
    rw [Reported.bind_mk] at silent
    obtain ⟨silentQuotes, silentRest⟩ := List.append_eq_nil_iff.1 silent
    cases found with
    | none =>
      cases recognized with
      | stopped one =>
        rw [silentQuotes] at one
        cases one
    | some taken =>
      cases recognized with
      | @passed a text after said holds whole quiet =>
        obtain ⟨body, inside, rfl⟩ := holds
        cases after with
        | nil =>
          rw [List.append_nil] at whole
          exact ⟨body, inside, whole⟩
        | cons c after => cases silentRest
  · rintro ⟨body, inside, text⟩
    rw [checkQuoted_report isQuote inside text]

/-- A word that begins with a quote is read as a quoted string by whoever reads phrases. -/
theorem readString_phrase {reader : TokenReader} (isQuote : Charset.isQuote quote = true)
    (front : word.front? = some quote) (found : reader.currentWord? = some word) :
    (readString .phrase reader).report =
      Report.labelled (label .phrase) (checkQuoted word).report := by
  have quotes : word.front?.any Charset.isQuote = true := by
    rw [front]
    exact isQuote
  have whole : (readString .phrase reader).report = (check .phrase word).report :=
    readWord_report _ _ found
  rw [whole, check, quotes]
  rfl

end StringKind

/-- A text of one line that is put in quotes is the first word of any line that begins with it
and a space. Read as a phrase it is one string, and so it is as the value of a tag with one
entry, in both cases without a remark. Of the words that begin with the same quote, those are
accepted as phrases that consist of one such string, closed by its first unprotected quote. -/
theorem quoted_is_read {quote : Char} (isQuote : Charset.isQuote quote = true) {text : List Char}
    (oneLine : '\n' ∉ text) :
    (∀ rest, (∃ others, Token.ofLine (quoted quote text ++ ' ' :: rest) =
        ⟨⟨quoted quote text, 0⟩, false⟩ :: others) ∧
      (TokenReader.ofLine (quoted quote text ++ ' ' :: rest)).currentWord? =
        some ⟨quoted quote text, 0⟩) ∧
    (∀ reader word, reader.currentWord? = some word → word.text = quoted quote text →
      (readString .phrase reader).report = ⟨[], [], [⟨word.span, .string⟩]⟩) ∧
    (∀ key, CompoundTag.IsScalar key → ∀ s : Slice,
      s.text = '{' :: (key ++ ':' :: quoted quote text ++ ['}']) →
        (CompoundTag.readWhole s).report =
          ⟨[], [], CompoundTag.entryTokens (s.start + 1) key (quoted quote text)⟩) ∧
    ∀ reader word, reader.currentWord? = some word → word.front? = some quote →
      ((readString .phrase reader).report.errors = [] ↔
        ∃ body, QuotedBody quote body ∧ word.text = quote :: (body ++ [quote])) := by
  have inside := quotedBody_escaped quote text
  have oneLineToo : '\n' ∉ escaped quote text := by
    intro mem
    rcases mem_escaped mem with escape | mem
    · exact absurd escape (by decide)
    · exact oneLine mem
  refine ⟨fun rest => ?_, fun reader word found same => ?_, fun key isKey s whole => ?_,
    fun reader word found front => ?_⟩
  · have joins : Token.Joins [] (quoted quote text) [] :=
      Token.joins_quoted [] isQuote inside oneLineToo
    obtain ⟨others, tokens⟩ := (Token.ofLine_of_joins joins (List.cons_ne_nil _ _)).2 rest
    refine ⟨⟨others, tokens⟩, ?_⟩
    rw [TokenReader.ofLine, tokens]
    rfl
  · have front : word.front? = some quote := by
      rw [Slice.front?, same]
      rfl
    rw [StringKind.readString_phrase isQuote front found,
      StringKind.checkQuoted_report isQuote inside same]
    rfl
  · exact CompoundTag.readWhole_entry isKey isQuote inside whole
  · obtain ⟨cs, text⟩ := List.head?_eq_some_iff.1 front
    rw [StringKind.readString_phrase isQuote front found, Report.labelled_errors_eq_nil,
      StringKind.checkQuoted_errors_iff isQuote text]

/-- A text with spaces, a bracket, both quotes and a backslash at its end. -/
theorem quoted_is_read_hostile :
    let text := "a] \"b\" 'c \\".toList
    let word := "\"a] \\\"b\\\" 'c \\\\\"".toList
    Charset.isQuote '"' = true ∧ '\n' ∉ text ∧ quoted '"' text = word ∧
      (∃ others, Token.ofLine (word ++ ' ' :: "rest".toList) = ⟨⟨word, 0⟩, false⟩ :: others) ∧
      (readString .phrase (TokenReader.ofLine (word ++ ' ' :: "rest".toList))).report =
        ⟨[], [], [⟨⟨0, 16⟩, .string⟩]⟩ := by
  intro text word
  have isQuote : Charset.isQuote '"' = true := by decide
  have oneLine : '\n' ∉ text := by decide
  have same : quoted '"' text = word := by decide
  obtain ⟨first, phrase, -⟩ := quoted_is_read isQuote oneLine
  rw [same] at first phrase
  obtain ⟨others, current⟩ := first "rest".toList
  exact ⟨isQuote, oneLine, same, others, phrase _ _ current rfl⟩

end Argument

end CommandScript
