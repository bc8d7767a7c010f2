import CommandScript.Proofs.Walk.Report

/-!
The path of a walk tiles its line.

Every attempt covers some text from the word on at which it was made
(`Hop.Stands`), so the entries of a path stand one behind the other, with one token
of spaces between two of them. A trail of the frontier has matched all of its entries
and stands behind the spaces after the last one (`Trail.Tiles`); where such a trail
ends a command, only spaces are left of the line. The report on a walk is on trails of
the last frontier and on hops that were tried after them (`walk_path_tiles`).
-/

namespace CommandScript

open TokenReader

/-! ## Tiled lines -/

/-- One of the tokens of spaces of a line is all that stands between two offsets. -/
def SpacesBetween (line : List Char) (start stop : Nat) : Prop :=
  ∃ token ∈ Token.ofLine line, token.isSpace = true ∧ token.slice.span = ⟨start, stop⟩

/-- The entries of a path tile a line: none is empty, the first stands behind the
leading spaces and every other one behind a token of spaces, and all but the last were
matched. -/
structure TilesLine (line : List Char) (path : List PathEntry) : Prop where
  nonempty : ∀ entry ∈ path, entry.span.start < entry.span.stop
  first : ∀ entry ∈ path.head?, entry.span.start = byteLength (line.takeWhile (· == ' '))
  separated : path.IsChain fun entry next => SpacesBetween line entry.span.stop next.span.start
  matched : ∀ entry ∈ path.dropLast, entry.matched = true

/-- What follows the last entry of a path on a line; the whole line if the path has
none. -/
def behindPath (line : List Char) (path : List PathEntry) : List Char :=
  ((Slice.ofLine line).dropBytes ((path.getLast?.map fun entry => entry.span.stop).getD 0)).text

/-- Only spaces follow the path on the line. -/
def ReachesEnd (line : List Char) (path : List PathEntry) : Prop :=
  ∀ c ∈ behindPath line path, c = ' '

section Tiling

variable {line : List Char} {path : List PathEntry} {entry : PathEntry}

theorem behindPath_append (line : List Char) (path : List PathEntry) (entry : PathEntry) :
    behindPath line (path ++ [entry]) = dropBytes entry.span.stop line := by
  rw [behindPath, List.getLast?_concat]
  rfl

/-- A token of spaces that a reader passes stands between its two positions. -/
theorem TokenReader.Valid.spacesBetween {r : TokenReader} {token : Token} (valid : r.Valid)
    (found : r.current? = some token) (space : token.isSpace = true) :
    SpacesBetween r.line r.offset r.advance.offset := by
  refine ⟨token, valid.mem_of_current? found, space, ?_⟩
  rw [← valid.current_start found, ← valid.current_stop found]
  rfl

/-- If the spaces behind an offset end the line, nothing else is left of it. -/
theorem SpacesBetween.rest {start : Nat} (spaces : SpacesBetween line start (byteLength line)) :
    ∀ c ∈ dropBytes start line, c = ' ' := by
  obtain ⟨token, mem, space, span⟩ := spaces
  obtain ⟨starts, stops⟩ := Span.mk.inj span
  obtain ⟨before, after, text, begins⟩ := Token.mem_ofLine_within mem
  have whole : line = before ++ (token.slice.text ++ after) := by
    rw [← List.append_assoc]
    exact text
  have offset : start = byteLength before := by
    rw [← starts, begins]
    exact Nat.zero_add _
  have nothing : after = [] := by
    apply Classical.byContradiction
    intro something
    have positive := byteLength_pos something
    have length := congrArg byteLength whole
    rw [Slice.stop_eq] at stops
    simp only [byteLength_append] at length
    omega
  have rest : dropBytes start line = token.slice.text := by
    rw [offset, whole, dropBytes_byteLength_append, nothing, List.append_nil]
  rw [rest]
  exact Token.spaces_of_mem_ofLine mem space

end Tiling

/-! ## Attempts -/

/-- Where a hop stands that was tried from a reader on: it begins at the reader and
covers some text, and if it matched, it ends where its own reader stands. -/
structure Hop.Stands (r : TokenReader) (hop : Hop) : Prop where
  starts : hop.span.start = r.offset
  nonempty : hop.span.start < hop.span.stop
  stops : hop.matched = true → hop.span.stop = hop.reader.offset

namespace Walk

variable {context : Context} {line : List Char} {r : TokenReader} {word : Slice}

/-- A hop that covers the word under its reader and did not match. -/
theorem stands_missed (name : String) (node : CommandNode) (report : Report) (valid : r.Valid)
    (found : r.current? = some ⟨word, false⟩) :
    Hop.Stands r ⟨name, node, word.span, r, report, false⟩ where
  starts := valid.current_start found
  nonempty := Slice.start_lt_stop (valid.current found).2.2.2.1
  stops := nofun

theorem attemptNode_stands (builtin : context.kinds.IsBuiltin) (name : String)
    (node : CommandNode) (valid : r.Valid) (found : r.current? = some ⟨word, false⟩) :
    (attemptNode context name node word r).Stands r := by
  unfold attemptNode attemptLiteral attemptArgument
  split
  · split
    · exact ⟨valid.current_start found, Slice.start_lt_stop (valid.current found).2.2.2.1,
        fun _ => valid.current_stop found⟩
    · exact stands_missed name node ∅ valid found
  · dsimp only
    split
    · exact stands_missed name node _ valid found
    · rename_i parser known
      have read := builtin.create?_reads known context.registries valid (atWord_of_current? found)
      rw [spanRead_eq valid found read.ahead]
      exact ⟨rfl, read.ahead.offset_lt valid (read.advances (atEnd_eq_false found)), fun _ => rfl⟩

/-! ## The first word -/

/-- The first word of a line stands behind the leading spaces. -/
theorem firstReader_offset (line : List Char) :
    (firstReader line).offset = byteLength (line.takeWhile (· == ' ')) := by
  have valid : (TokenReader.ofLine line).Valid := ⟨List.suffix_refl _, Nat.zero_le _⟩
  rcases Token.ofLine_leading line with ⟨others, tokens⟩ | ⟨none, word⟩
  · have found : (TokenReader.ofLine line).current? =
        some ⟨⟨line.takeWhile (· == ' '), 0⟩, true⟩ := by
      rw [TokenReader.ofLine, ofTokens, current?, tokens]
      rfl
    have stop := valid.current_stop found
    rw [Slice.stop_eq, Nat.zero_add] at stop
    rw [stop, advance_eq (atEnd_eq_false found), firstReader, tokens]
    simp [offset, current?, ofTokens, TokenReader.ofLine, tokens]
  · have begins : firstReader line = .ofLine line := by
      unfold firstReader
      cases tokens : Token.ofLine line with
      | nil => rfl
      | cons first others =>
        rw [tokens] at word
        exact if_neg (by simp [word first rfl])
    rw [begins, none]
    exact offset_eq (Token.ofLine_tiles line) (Nat.zero_add _)

end Walk

/-! ## Trails -/

/-- Where a reader stands that has read a path: in front of the first word, or behind
the last entry, at the end of the line or past a token of spaces. -/
inductive ReadTo (line : List Char) : List PathEntry → TokenReader → Prop where
  | start {reader : TokenReader}
    (begins : reader.offset = byteLength (line.takeWhile (· == ' '))) : ReadTo line [] reader
  | ended {path : List PathEntry} {entry : PathEntry} {reader : TokenReader}
    (ends : reader.atEnd = true) (stops : entry.span.stop = reader.offset) :
    ReadTo line (path ++ [entry]) reader
  | separated {path : List PathEntry} {entry : PathEntry} {reader : TokenReader}
    (spaces : SpacesBetween line entry.span.stop reader.offset) :
    ReadTo line (path ++ [entry]) reader

section ReadTo

variable {line : List Char} {path : List PathEntry} {entry : PathEntry} {reader : TokenReader}

/-- An entry that begins at a word to which a path was read continues the path. -/
theorem ReadTo.tiles_append (readTo : ReadTo line path reader) (tiles : TilesLine line path)
    (matched : ∀ before ∈ path, before.matched = true) (live : reader.atEnd = false)
    (starts : entry.span.start = reader.offset) (nonempty : entry.span.start < entry.span.stop) :
    TilesLine line (path ++ [entry]) where
  nonempty := List.forall_mem_append.2 ⟨tiles.nonempty, List.forall_mem_singleton.2 nonempty⟩
  first := by
    cases readTo with
    | start begins =>
      rintro first ⟨⟩
      exact starts.trans begins
    | ended ends => rw [ends] at live; cases live
    | separated spaces =>
      intro first head
      refine tiles.first first ?_
      rwa [List.head?_append_of_ne_nil _ (by simp)] at head
  separated := by
    refine List.isChain_append.2 ⟨tiles.separated, .singleton _, fun last isLast next head => ?_⟩
    obtain rfl := Option.some.inj head
    cases readTo with
    | start => cases isLast
    | ended ends => rw [ends] at live; cases live
    | separated spaces =>
      rw [List.getLast?_concat] at isLast
      obtain rfl := Option.some.inj isLast
      rwa [starts]
  matched := by
    rw [List.dropLast_concat]
    exact matched

/-- At the end of a line only spaces are behind the path. -/
theorem ReadTo.reachesEnd (readTo : ReadTo line path reader) (ends : reader.atEnd = true)
    (sameLine : reader.line = line) : ReachesEnd line path := by
  have stop := offset_of_atEnd ends
  rw [sameLine] at stop
  unfold ReachesEnd
  cases readTo with
  | start begins =>
    have whole : behindPath line [] = line := dropBytes_byteLength_append [] line
    have divided := List.takeWhile_append_dropWhile (p := (· == ' ')) (l := line)
    have nothing : line.dropWhile (· == ' ') = [] := by
      apply Classical.byContradiction
      intro something
      have positive := byteLength_pos something
      have lengths := congrArg byteLength divided
      rw [byteLength_append] at lengths
      omega
    rw [nothing, List.append_nil] at divided
    rw [whole, ← divided]
    exact fun c mem => beq_iff_eq.1 (List.all_eq_true.1 List.all_takeWhile c mem)
  | ended _ stops =>
    have none := dropBytes_byteLength_append line []
    rw [List.append_nil] at none
    rw [behindPath_append, stops, stop, none]
    exact nofun
  | separated spaces =>
    rw [stop] at spaces
    rw [behindPath_append]
    exact spaces.rest

/-- Behind an entry the separator is passed, or the line ends. -/
theorem readTo_passSpaces (path : List PathEntry) (valid : reader.Valid)
    (separated : reader.AtSeparator) (stops : entry.span.stop = reader.offset) :
    ReadTo reader.line (path ++ [entry]) reader.passSpaces := by
  cases found : reader.current? with
  | none =>
    rw [passSpaces, found]
    exact .ended (current?_eq_none_iff.1 found) stops
  | some token =>
    have space := separated token found
    rw [passSpaces, found]
    dsimp only
    rw [if_pos space]
    apply ReadTo.separated
    rw [stops]
    exact valid.spacesBetween found space

end ReadTo

/-- The path of a trail tiles the line up to its reader, and all of it was matched. -/
structure Trail.Tiles (line : List Char) (trail : Trail) : Prop where
  path : TilesLine line trail.path
  matched : ∀ entry ∈ trail.path, entry.matched = true
  readTo : ReadTo line trail.path trail.reader

namespace Walk

section Trails

variable {context : Context} {line : List Char} {trail : Trail}

theorem startTrail_tiles (context : Context) (line : List Char) :
    (startTrail context line).Tiles line where
  path := ⟨nofun, nofun, .nil, nofun⟩
  matched := nofun
  readTo := by
    apply ReadTo.start
    rw [startTrail_reader, firstReader_offset]

/-- Whatever is tried after a trail, matched or not, tiles the line as well. -/
theorem extensions_tile (builtin : context.kinds.IsBuiltin) (sound : trail.Sound line)
    (tiles : trail.Tiles line) :
    ∀ extension ∈ extensions context trail, TilesLine line extension.2.path := by
  intro extension mem
  cases extended_of_mem mem with
  | deadEnd =>
    rw [Trail.path_add]
    exact tiles.path
  | @tried name node word found child =>
    have stands := attemptNode_stands builtin name node sound.valid found
    rw [Trail.path_push]
    exact tiles.readTo.tiles_append tiles.path tiles.matched (atEnd_eq_false found) stands.starts
      stands.nonempty

theorem offspring_tiles (builtin : context.kinds.IsBuiltin) (sound : trail.Sound line)
    (tiles : trail.Tiles line) : ∀ next ∈ offspring context trail, next.Tiles line := by
  intro next mem
  rcases List.mem_map.1 mem with ⟨extension, survivor, rfl⟩
  rcases List.mem_filter.1 survivor with ⟨memExtension, survived⟩
  have tilesLine := extensions_tile builtin sound tiles extension memExtension
  cases extended_of_mem memExtension with
  | deadEnd => cases survived
  | @tried name node word found child =>
    have stands := attemptNode_stands builtin name node sound.valid found
    have behind := attemptNode_behind builtin name node sound.valid found
    generalize attemptNode context name node word trail.reader = hop
      at stands behind survived tilesLine
    have matched : hop.matched = true := survived
    have separated : (trail.push hop).reader.AtSeparator := behind.separated matched
    obtain ⟨-, reader, -, path⟩ := Trail.passSeparator_eq separated
    have onLine : hop.reader.line = line := behind.ahead.line.trans sound.sameLine
    have stops : hop.entry.span.stop = hop.reader.offset := stands.stops matched
    have readTo := readTo_passSpaces trail.path (behind.ahead.valid sound.valid)
      (behind.separated matched) stops
    rw [onLine] at readTo
    rw [Trail.path_push] at path tilesLine
    refine ⟨?_, ?_, ?_⟩
    · rwa [path]
    · rw [path]
      exact List.forall_mem_append.2 ⟨tiles.matched, List.forall_mem_singleton.2 matched⟩
    · rwa [path, reader]

end Trails

/-! ## Reports -/

/-- The paths of a report, the reported one and those beside it, satisfy `P`; where they
end a command, they satisfy `Q` as well. -/
structure PathsSatisfy (P Q : List PathEntry → Prop) (report : LineReport) : Prop where
  reported : P report.path
  succeeds : report.success = true → Q report.path
  beside : ∀ ambiguity ∈ report.ambiguity, ∀ path ∈ ambiguity.alternatives,
    P path ∧ (ambiguity.kind = .terminals → Q path)

section Reports

variable {P Q : List PathEntry → Prop} {trails : List Trail} {start : Trail}

theorem report_paths {kind : AmbiguityKind} {chosen : Trail} {others : List Trail}
    (holds : ∀ trail ∈ chosen :: others, P trail.path)
    (ends : kind = .terminals → ∀ trail ∈ chosen :: others, Q trail.path) :
    PathsSatisfy P Q (report kind chosen others) where
  reported := holds chosen (List.mem_cons_self ..)
  succeeds success := ends (of_decide_eq_true success) chosen (List.mem_cons_self ..)
  beside ambiguity mem path memPath := by
    unfold report at mem
    dsimp only at mem
    split at mem
    · cases mem
    · obtain rfl := Option.some.inj mem
      rcases List.mem_map.1 memPath with ⟨other, found, rfl⟩
      have found := List.mem_cons_of_mem chosen found
      exact ⟨holds other found, fun terminals => ends terminals other found⟩

/-- A walk that ran out of input is reported by the first trail that did. -/
theorem reportFirst_paths (startHolds : P start.path) (holds : ∀ trail ∈ trails, P trail.path) :
    PathsSatisfy P Q (reportFirst .incomplete start trails) := by
  cases trails with
  | nil => exact report_paths (List.forall_mem_singleton.2 startHolds) nofun
  | cons chosen others => exact report_paths holds nofun

theorem finish_paths {otherwise : LineReport} (holds : ∀ trail ∈ trails, P trail.path)
    (ends : ∀ trail ∈ trails, Q trail.path) (rest : PathsSatisfy P Q otherwise) :
    PathsSatisfy P Q (finish trails otherwise) := by
  cases trails with
  | nil => exact rest
  | cons chosen others => exact report_paths holds fun _ => ends

theorem explain_path (context : Context) (trail : Trail) :
    (explain context trail).path = trail.path := by
  unfold explain
  split
  · split
    · exact Trail.path_add ..
    · rfl
  · rfl

theorem failure_paths {context : Context} (startHolds : P start.path)
    (holds : ∀ trail ∈ trails, P trail.path) :
    PathsSatisfy P Q (failure context start trails) := by
  cases trails with
  | nil => exact report_paths (List.forall_mem_singleton.2 startHolds) nofun
  | cons first others =>
    rcases List.forall_mem_cons.1 holds with ⟨firstHolds, othersHold⟩
    obtain ⟨chosen, rest⟩ := furthest_all (P := fun trail => P trail.path) firstHolds othersHold
    refine report_paths (List.forall_mem_cons.2 ⟨?_, rest⟩) nofun
    rwa [explain_path]

end Reports

/-! ## States -/

section States

variable {context : Context} {line : List Char} {n : Nat} {state : State}

/-- The trails of the frontier tile the line up to their readers, and the terminals
tile all of it. -/
structure State.Tiles (line : List Char) (state : State) : Prop where
  frontier : ∀ trail ∈ state.frontier, trail.Tiles line
  terminals : ∀ trail ∈ state.terminals, TilesLine line trail.path ∧ ReachesEnd line trail.path

theorem State.Tiles.allTerminals (tiles : state.Tiles line) (sound : state.Sound line) :
    ∀ trail ∈ state.allTerminals, TilesLine line trail.path ∧ ReachesEnd line trail.path := by
  refine List.forall_mem_append.2 ⟨tiles.terminals, fun trail mem => ?_⟩
  obtain ⟨inFrontier, terminal⟩ := List.mem_filter.1 mem
  have trailTiles := tiles.frontier trail inFrontier
  exact ⟨trailTiles.path, trailTiles.readTo.reachesEnd (Bool.and_eq_true_iff.1 terminal).1
    (sound trail inFrontier).sameLine⟩

theorem Reached.tiles (builtin : context.kinds.IsBuiltin)
    (reached : Reached context line n state) : state.Tiles line := by
  have start := startTrail_tiles context line
  have goesOn := fun (trail : Trail) (sound : trail.Sound line) (tiles : trail.Tiles line) =>
    offspring_tiles builtin sound tiles
  refine ⟨reached.frontier_holds builtin start goesOn, fun trail mem => ?_⟩
  obtain ⟨sound, terminal, tiles⟩ :=
    reached.allTerminals_hold builtin start goesOn trail (List.mem_append_left _ mem)
  exact ⟨tiles.path, tiles.readTo.reachesEnd (Bool.and_eq_true_iff.1 terminal).1 sound.sameLine⟩

end States

end Walk

/-- Every path that a walk reports, the ambiguous ones included, tiles the line: its
entries are not empty and all but the last were matched, the first stands behind the
leading spaces, and between two neighbours stands exactly one token of spaces. A path
that ends a command leaves nothing but spaces behind it. -/
theorem walk_path_tiles (context : Context) (builtin : context.kinds.IsBuiltin)
    (line : List Char) (report : LineReport) (walked : walk context line = .ok report) :
    TilesLine line report.path ∧ (report.success = true → ReachesEnd line report.path) ∧
      ∀ ambiguity ∈ report.ambiguity, ∀ path ∈ ambiguity.alternatives,
        TilesLine line path ∧ (ambiguity.kind = .terminals → ReachesEnd line path) := by
  obtain ⟨n, last, ended, reached, done, eq⟩ := Walk.walk_ends builtin line
  obtain rfl := Except.ok.inj (walked.symm.trans eq)
  have sound := reached.sound builtin
  have tiles := reached.tiles builtin
  have start := (Walk.startTrail_tiles context line).path
  have terminals := tiles.allTerminals sound
  have generated := Walk.generation_generated builtin (Walk.startTrail context line) sound
  rw [done] at generated
  have paths : Walk.PathsSatisfy (TilesLine line) (ReachesEnd line) report := by
    cases generated with
    | exhausted ends =>
      refine Walk.finish_paths (fun trail mem => (terminals trail mem).1)
        (fun trail mem => (terminals trail mem).2) (Walk.reportFirst_paths start fun trail mem => ?_)
      rcases List.mem_map.1 mem with ⟨short, found, rfl⟩
      rw [Trail.path_add]
      exact (tiles.frontier short (List.mem_filter.1 found).1).path
    | stuck barren =>
      refine Walk.finish_paths (fun trail mem => (terminals trail mem).1)
        (fun trail mem => (terminals trail mem).2) (Walk.failure_paths start fun trail mem => ?_)
      rcases List.mem_map.1 mem with ⟨extension, found, rfl⟩
      rcases List.mem_flatMap.1 found with ⟨parent, inFrontier, memExtension⟩
      exact Walk.extensions_tile builtin (sound parent inFrontier)
        (tiles.frontier parent inFrontier) extension memExtension
  exact ⟨paths.reported, paths.succeeds, paths.beside⟩

/-- The entries of two words between spaces. -/
theorem walk_path_tiles_pair :
    (Context.ofPair "time" "query").kinds.IsBuiltin ∧
      ∃ report, walk (Context.ofPair "time" "query") "  time query ".toList = .ok report ∧
        report.success = true ∧ report.path.map PathEntry.span = [⟨2, 6⟩, ⟨7, 12⟩] ∧
          TilesLine "  time query ".toList report.path ∧
            ReachesEnd "  time query ".toList report.path := by
  have builtin : (Context.ofPair "time" "query").kinds.IsBuiltin := KindRegistry.builtin_isBuiltin
  obtain ⟨report, walked, success, spans⟩ : ∃ report,
      walk (Context.ofPair "time" "query") "  time query ".toList = .ok report ∧
        report.success = true ∧ report.path.map PathEntry.span = [⟨2, 6⟩, ⟨7, 12⟩] :=
    ⟨_, rfl, rfl, rfl⟩
  obtain ⟨tiles, ends, -⟩ := walk_path_tiles _ builtin _ report walked
  exact ⟨builtin, report, walked, success, spans, tiles, ends success⟩

end CommandScript
