import OsmPgsql.Style

/-!
# Writing a style file and reading it back

A style file as its writer lays it out: each line an entry of four fields separated by one
blank, or none, then an optional comment after `#`, then a newline (`StyleLine`). The fourth
field is the entry's flag names joined by commas. `read_style_file` reads such a file back to
what it says (`readStyleFile_renderStyle`): the entries in order on the node list, the way list
or both, `enable_way_area` unless an entry deletes `way_area`, and the abort when the file has
no entry at all.

What the writer must respect is `StyleEntry.WellFormed` and `StyleLine.WellFormed`, each clause
a limit of one C call: the widths of the four `%Ns` conversions, no white space, no `#` and no
NUL in a field (`sscanf` reads no further than a NUL), no comma in a flag name for `strtok`, an object type naming nodes or ways, a wildcard
only in a delete entry, and at most 1022 characters before the newline so that one `fgets`
reads the whole line. Every entry has its fourth field, so the buffer `flags` that a
three-field line would read (`readLine_flags`) plays no part.

The proof follows the calls: one `fgets` read per line (`fgetsReads_line`), the comment cut
(`lineText_text`), the four conversions (`sscanfWords_render`), the `strtok` loop on the joined
names (`strtokLoop_intercalate`), then one turn of the loop per line (`readLine_text_none`,
`readLine_text_some`) and the loop over the file (`foldlM_readLine_render`).

The error paths: on a file whose lines fit one `fgets` read each, a rejected file is rejected at
one line, every line before it accepted, and the two messages that carry a line number carry
that line's (`readStyleFile_error_line`). The wildcard message names the tag instead.
-/

set_option autoImplicit false

namespace OsmPgsql

namespace Style

/-! ## The layout -/

/-- A field that one `%Ns` conversion of width `width` reads whole: not empty, at most `width`
characters, none of them white space, `#` or NUL. -/
def FieldOk (width : Nat) (w : List Char) : Prop :=
  w ≠ [] ∧ w.length ≤ width ∧ ∀ c ∈ w, isSpace c = false ∧ c ≠ '#' ∧ c ≠ nul

/-- One entry: the object types, the tag, the column type and the flag names. -/
structure StyleEntry where
  osmtype : List Char
  tag : List Char
  datatype : List Char
  flags : List (List Char)
  deriving DecidableEq, Repr

/-- The entry as one line holds it: the four fields, one blank between two, the flag names
joined by commas. -/
def StyleEntry.render (e : StyleEntry) : List Char :=
  e.osmtype ++ ' ' :: (e.tag ++ ' ' :: (e.datatype ++ ' ' :: [','].intercalate e.flags))

/-- The `taginfo` the entry stands for. -/
def StyleEntry.info (v : FlagValues) (e : StyleEntry) : TagInfo :=
  ⟨String.mk e.tag, String.mk e.datatype, flagsOf v e.flags⟩

/-- Whether the entry deletes `way_area`. -/
def StyleEntry.deletesWayArea (v : FlagValues) (e : StyleEntry) : Bool :=
  decide ((e.info v).name = "way_area" ∧ (e.info v).flags = v.delete)

/-- What the calls of `read_style_file` can read back. -/
structure StyleEntry.WellFormed (v : FlagValues) (e : StyleEntry) : Prop where
  osmtype : FieldOk 23 e.osmtype
  tag : FieldOk 63 e.tag
  datatype : FieldOk 23 e.datatype
  flags : FieldOk 127 ([','].intercalate e.flags)
  tokens : ∀ tok ∈ e.flags, tok ≠ [] ∧ ',' ∉ tok
  kept : strstr "node".toList e.osmtype = true ∨ strstr "way".toList e.osmtype = true
  wildcard : '?' ∈ e.tag ∨ '*' ∈ e.tag → flagsOf v e.flags = v.delete

/-- One line of a style file: an entry or none, then a comment or none. -/
structure StyleLine where
  entry : Option StyleEntry
  comment : Option (List Char)
  deriving DecidableEq, Repr

/-- The line without its newline. -/
def StyleLine.text (l : StyleLine) : List Char :=
  (l.entry.map StyleEntry.render).getD [] ++ (l.comment.map ('#' :: ·)).getD []

structure StyleLine.WellFormed (v : FlagValues) (l : StyleLine) : Prop where
  entry : ∀ e ∈ l.entry, e.WellFormed v
  comment : ∀ c ∈ l.comment, '\n' ∉ c
  length : l.text.length ≤ 1022

instance (width : Nat) (w : List Char) : Decidable (FieldOk width w) := by
  unfold FieldOk; infer_instance

instance (v : FlagValues) (e : StyleEntry) : Decidable (e.WellFormed v) :=
  decidable_of_iff (FieldOk 23 e.osmtype ∧ FieldOk 63 e.tag ∧ FieldOk 23 e.datatype ∧
      FieldOk 127 ([','].intercalate e.flags) ∧ (∀ tok ∈ e.flags, tok ≠ [] ∧ ',' ∉ tok) ∧
      (strstr "node".toList e.osmtype = true ∨ strstr "way".toList e.osmtype = true) ∧
      ('?' ∈ e.tag ∨ '*' ∈ e.tag → flagsOf v e.flags = v.delete))
    ⟨fun ⟨a, b, c, d, f, g, h⟩ => ⟨a, b, c, d, f, g, h⟩, fun ⟨a, b, c, d, f, g, h⟩ => ⟨a, b, c, d, f, g, h⟩⟩

instance (v : FlagValues) (l : StyleLine) : Decidable (l.WellFormed v) :=
  decidable_of_iff ((∀ e ∈ l.entry, e.WellFormed v) ∧ (∀ c ∈ l.comment, '\n' ∉ c) ∧
      l.text.length ≤ 1022)
    ⟨fun ⟨a, b, c⟩ => ⟨a, b, c⟩, fun ⟨a, b, c⟩ => ⟨a, b, c⟩⟩

/-- The file: each line and its newline. -/
def renderStyle (ls : List StyleLine) : List Char := ls.flatMap fun l => l.text ++ ['\n']

/-- What a style file says: its entries in order on the node list, the way list or both, and
`enable_way_area` unless an entry deletes `way_area`. -/
def styleMeaning (v : FlagValues) (es : List StyleEntry) : ExportList × Bool :=
  (es.foldl (fun ex e => ex.addFor e.osmtype (e.info v)) ⟨[], []⟩, !es.any (·.deletesWayArea v))

/-! ## The reads -/

/-- `fgets` reads a line of at most 1022 characters and its newline in one call. -/
theorem fgetsReads_line {rest : List Char} :
    ∀ {l cur : List Char}, '\n' ∉ l → cur.length + l.length ≤ 1022 →
      fgetsReads (l ++ '\n' :: rest) cur = (cur.reverse ++ l ++ ['\n']) :: fgetsReads rest []
  | [], cur, _, _ => by simp [fgetsReads]
  | c :: l, cur, hn, hlen => by
    have hc : c ≠ '\n' := fun h => hn (h ▸ List.mem_cons_self _ _)
    have hcur : cur.length + 1 ≠ 1023 := by simp only [List.length_cons] at hlen; omega
    rw [List.cons_append, fgetsReads, if_neg (not_or.mpr ⟨hc, hcur⟩),
      fgetsReads_line (fun h => hn (List.mem_cons_of_mem _ h)) (by simp at hlen ⊢; omega)]
    simp

theorem StyleEntry.WellFormed.not_space {v : FlagValues} {e : StyleEntry} (he : e.WellFormed v) :
    ∀ c ∈ e.render, c = ' ' ∨ (isSpace c = false ∧ c ≠ '#' ∧ c ≠ nul) := by
  intro c hc
  simp only [StyleEntry.render, List.mem_append, List.mem_cons] at hc
  rcases hc with hc | rfl | hc | rfl | hc | rfl | hc
  all_goals first
    | exact .inl rfl
    | exact .inr (he.osmtype.2.2 c hc)
    | exact .inr (he.tag.2.2 c hc)
    | exact .inr (he.datatype.2.2 c hc)
    | exact .inr (he.flags.2.2 c hc)

theorem StyleLine.WellFormed.newline_not_mem {v : FlagValues} {l : StyleLine}
    (hl : l.WellFormed v) : '\n' ∉ l.text := by
  simp only [StyleLine.text, List.mem_append]
  rintro (h | h)
  · cases he : l.entry with
    | none => simp [he] at h
    | some e =>
      simp only [he, Option.map_some', Option.getD_some] at h
      rcases (hl.entry e he).not_space _ h with h | ⟨h, -⟩
      · cases h
      · cases h
  · cases hc : l.comment with
    | none => simp [hc] at h
    | some c =>
      simp only [hc, Option.map_some', Option.getD_some, List.mem_cons] at h
      rcases h with h | h
      · cases h
      · exact hl.comment c hc h

theorem fgetsReads_renderStyle {v : FlagValues} :
    ∀ {ls : List StyleLine}, (∀ l ∈ ls, l.WellFormed v) →
      fgetsReads (renderStyle ls) [] = ls.map fun l => l.text ++ ['\n']
  | [], _ => rfl
  | l :: ls, hls => by
    have hl := hls l (List.mem_cons_self _ _)
    rw [renderStyle, List.flatMap_cons, List.append_assoc, List.singleton_append,
      fgetsReads_line hl.newline_not_mem (by simpa using hl.length)]
    simp only [List.reverse_nil, List.nil_append, List.map_cons]
    exact congrArg _ (fgetsReads_renderStyle fun l h => hls l (List.mem_cons_of_mem _ h))

/-! ## The conversions -/

theorem scanWord_space (width : Nat) (s : List Char) : scanWord width (' ' :: s) = scanWord width s :=
  rfl

/-- `%Ns` reads a field that fits, up to the white space after it. -/
theorem scanWord_field {width : Nat} {w rest : List Char} (hw : FieldOk width w)
    (hrest : ∀ c ∈ rest.head?, isSpace c = true) : scanWord width (w ++ rest) = some (w, rest) := by
  obtain ⟨hne, hlen, hc⟩ := hw
  obtain ⟨c, w', rfl⟩ := List.exists_cons_of_ne_nil hne
  have hstop : rest.takeWhile (!isSpace ·) = [] := by
    cases rest with
    | nil => rfl
    | cons d r => simp [List.takeWhile_cons, hrest d rfl]
  have htake : (w' ++ rest).takeWhile (!isSpace ·) = w' := by
    rw [List.takeWhile_append_of_pos fun a ha => by simp [(hc a (.tail _ ha)).1], hstop,
      List.append_nil]
  simp only [scanWord, List.cons_append, List.dropWhile_cons, (hc c (.head _)).1, List.takeWhile_cons,
    Bool.not_false, if_true, htake, List.take_of_length_le hlen, List.length_cons, Bool.false_eq_true,
    if_false]
  simp

theorem scanWord_field_space {width : Nat} {w : List Char} (hw : FieldOk width w) (s : List Char) :
    scanWord width (w ++ ' ' :: s) = some (w, ' ' :: s) :=
  scanWord_field hw (by simp [isSpace])

/-- The four conversions of an entry's line, whatever white space ends it. -/
theorem sscanfWords_render {v : FlagValues} {e : StyleEntry} (he : e.WellFormed v) {sp : List Char}
    (hsp : ∀ c ∈ sp.head?, isSpace c = true) :
    sscanfWords [23, 63, 23, 127] (e.render ++ sp) =
      [e.osmtype, e.tag, e.datatype, [','].intercalate e.flags] := by
  simp only [StyleEntry.render, List.append_assoc, List.cons_append, sscanfWords,
    scanWord_field_space he.osmtype, scanWord_space, scanWord_field_space he.tag,
    scanWord_field_space he.datatype, scanWord_field he.flags hsp]

/-! ## The flag names -/

/-- One `strtok` call on a flag name followed by a delimiter or by nothing. -/
theorem strtok_token {tok rest : List Char} (hne : tok ≠ [])
    (htok : ∀ c ∈ tok, isFlagDelim c = false) (hrest : ∀ c ∈ rest.head?, isFlagDelim c = true) :
    strtok (tok ++ rest) = some (tok, rest.drop 1) := by
  obtain ⟨c, t, rfl⟩ := List.exists_cons_of_ne_nil hne
  have hrest' : rest.dropWhile (!isFlagDelim ·) = rest := by
    cases rest with
    | nil => rfl
    | cons d r => simp [List.dropWhile_cons, hrest d rfl]
  have hstop : rest.takeWhile (!isFlagDelim ·) = [] := by
    cases rest with
    | nil => rfl
    | cons d r => simp [List.takeWhile_cons, hrest d rfl]
  have hpos : ∀ a ∈ t, (!isFlagDelim a) = true := fun a ha => by simp [htok a (.tail _ ha)]
  simp only [strtok, List.cons_append, List.dropWhile_cons, htok c (.head _), Bool.false_eq_true,
    if_false, List.takeWhile_cons, Bool.not_false, if_true, List.takeWhile_append_of_pos hpos, hstop,
    List.append_nil, List.dropWhile_append_of_pos hpos, hrest']

theorem intercalate_cons_cons (a b : List Char) (l : List (List Char)) :
    [','].intercalate (a :: b :: l) = a ++ ',' :: [','].intercalate (b :: l) := by
  simp [List.intercalate, List.intersperse_cons_cons]

/-- The `strtok` loop splits the joined names back into the names. -/
theorem strtokLoop_intercalate :
    ∀ {toks : List (List Char)} {fuel : Nat},
      (∀ tok ∈ toks, tok ≠ [] ∧ ∀ c ∈ tok, isFlagDelim c = false) →
      ([','].intercalate toks).length < fuel → strtokLoop fuel ([','].intercalate toks) = toks
  | [], _, _, _ => strtokLoop_nil _
  | [tok], fuel + 1, h, _ => by
    have h₁ := h tok (List.mem_singleton_self _)
    have hs : strtok (tok ++ []) = some (tok, ([] : List Char).drop 1) :=
      strtok_token h₁.1 h₁.2 (by simp)
    rw [List.append_nil, List.drop_nil] at hs
    simp [List.intercalate, strtokLoop, hs, strtokLoop_nil]
  | tok :: tok' :: toks, fuel + 1, h, hlen => by
    have h₁ := h tok (List.mem_cons_self _ _)
    rw [intercalate_cons_cons] at hlen ⊢
    rw [strtokLoop, strtok_token h₁.1 h₁.2 (by simp [isFlagDelim]), List.drop_one, List.tail_cons]
    exact congrArg (List.cons tok) (strtokLoop_intercalate (fun t ht => h t (List.mem_cons_of_mem _ ht))
      (by simp only [List.length_append, List.length_cons] at hlen; omega))

theorem mem_intercalate_of_mem {c : Char} {tok : List Char} :
    ∀ {toks : List (List Char)}, tok ∈ toks → c ∈ tok → c ∈ [','].intercalate toks
  | [_], ht, hc => by
    obtain rfl := List.mem_singleton.mp ht
    simpa [List.intercalate] using hc
  | _ :: _ :: _, ht, hc => by
    rw [intercalate_cons_cons, List.mem_append, List.mem_cons]
    rcases List.mem_cons.mp ht with rfl | ht
    · exact .inl hc
    · exact .inr (.inr (mem_intercalate_of_mem ht hc))

theorem StyleEntry.WellFormed.lineInfo_eq {v : FlagValues} {e : StyleEntry} (he : e.WellFormed v) :
    lineInfo v e.tag e.datatype ([','].intercalate e.flags) = e.info v := by
  have htoks : ∀ tok ∈ e.flags, tok ≠ [] ∧ ∀ c ∈ tok, isFlagDelim c = false := fun tok ht => by
    refine ⟨(he.tokens tok ht).1, fun c hc => ?_⟩
    have hsp := (he.flags.2.2 c (mem_intercalate_of_mem ht hc)).1
    have hcomma : c ≠ ',' := fun h => (he.tokens tok ht).2 (h ▸ hc)
    simp only [isSpace, Bool.or_eq_false_iff, decide_eq_false_iff_not] at hsp
    simp only [isFlagDelim, Bool.or_eq_false_iff, decide_eq_false_iff_not]
    exact ⟨⟨hcomma, fun h => by simp [h] at hsp⟩, fun h => by simp [h] at hsp⟩
  simp [lineInfo, StyleEntry.info, strtokLoop_intercalate htoks (Nat.lt_succ_self _)]

/-! ## One turn per line -/

/-- What `sscanf` reads of a line: the entry, then the newline when no comment cuts it first. -/
theorem lineText_text {v : FlagValues} {l : StyleLine} (hl : l.WellFormed v) :
    lineText (l.text ++ ['\n']) =
      (l.entry.map StyleEntry.render).getD [] ++ if l.comment = none then ['\n'] else [] := by
  have hentry : ∀ c ∈ (l.entry.map StyleEntry.render).getD [], c ≠ nul ∧ c ≠ '#' := by
    intro c hc
    cases he : l.entry with
    | none => simp [he] at hc
    | some e =>
      simp only [he, Option.map_some', Option.getD_some] at hc
      rcases (hl.entry e he).not_space c hc with rfl | ⟨-, h, h'⟩
      · decide
      · exact ⟨h', h⟩
  rw [lineText, cString, StyleLine.text, List.append_assoc,
    List.takeWhile_append_of_pos fun c hc => by simpa using (hentry c hc).1,
    List.takeWhile_append_of_pos fun c hc => by simpa using (hentry c hc).2]
  cases l.comment <;> simp [List.takeWhile_cons, nul]

/-- A line with no entry: a blank line, or a comment. -/
theorem readLine_text_none {v : FlagValues} {l : StyleLine} (hl : l.WellFormed v)
    (hn : l.entry = none) (st : StyleState) :
    readLine v st (l.text ++ ['\n']) = .ok { st with lineno := st.lineno + 1 } := by
  have hw : sscanfWords [23, 63, 23, 127] (lineText (l.text ++ ['\n'])) = [] := by
    rw [lineText_text hl, hn]
    split_ifs <;> simp [sscanfWords, scanWord, isSpace]
  simp only [readLine, hw]

/-- A line with an entry: its `taginfo` appended, one more line read, and `enable_way_area`
turned off if it deletes `way_area`. -/
theorem readLine_text_some {v : FlagValues} {l : StyleLine} (hl : l.WellFormed v) {e : StyleEntry}
    (he : l.entry = some e) (st : StyleState) :
    readLine v st (l.text ++ ['\n']) =
      .ok ⟨st.lineno + 1, st.numRead + 1, strtokLeft ([','].intercalate e.flags),
        if e.deletesWayArea v then false else st.enableWayArea, st.exlist.addFor e.osmtype (e.info v)⟩ := by
  have hwf := hl.entry e he
  have hw : sscanfWords [23, 63, 23, 127] (lineText (l.text ++ ['\n'])) =
      [e.osmtype, e.tag, e.datatype, [','].intercalate e.flags] := by
    rw [lineText_text hl, he, Option.map_some', Option.getD_some]
    exact sscanfWords_render hwf (by split_ifs <;> simp [isSpace])
  have hwild : ¬((e.info v).flags ≠ v.delete ∧ ('?' ∈ e.tag ∨ '*' ∈ e.tag)) :=
    fun ⟨hf, hq⟩ => hf (hwf.wildcard hq)
  have hkept : (!strstr "node".toList e.osmtype && !strstr "way".toList e.osmtype) = false := by
    rcases hwf.kept with h | h <;> rw [h] <;> simp
  simp only [readLine, hw, List.headD_cons, hwf.lineInfo_eq, hwild, if_false, hkept,
    Bool.false_eq_true, StyleEntry.deletesWayArea, decide_eq_true_eq]

/-! ## The loop -/

/-- The loop over the lines of a written file: it reads every line, counts the entries, appends
their `taginfo`s in order, and turns `enable_way_area` off if one deletes `way_area`. -/
theorem foldlM_readLine_render {v : FlagValues} :
    ∀ {ls : List StyleLine}, (∀ l ∈ ls, l.WellFormed v) → ∀ st : StyleState,
      ∃ flags, (ls.map fun l => l.text ++ ['\n']).foldlM (readLine v) st =
        .ok ⟨st.lineno + ls.length, st.numRead + (ls.filterMap (·.entry)).length, flags,
          st.enableWayArea && !(ls.filterMap (·.entry)).any (·.deletesWayArea v),
          (ls.filterMap (·.entry)).foldl (fun ex e => ex.addFor e.osmtype (e.info v)) st.exlist⟩
  | [], _, st => ⟨st.flags, by simp [pure, Except.pure]⟩
  | l :: ls, hls, st => by
    have hl := hls l (List.mem_cons_self _ _)
    have ih := @foldlM_readLine_render v ls fun l h => hls l (List.mem_cons_of_mem _ h)
    cases he : l.entry with
    | none =>
      obtain ⟨flags, h⟩ := ih { st with lineno := st.lineno + 1 }
      refine ⟨flags, ?_⟩
      rw [List.map_cons, List.foldlM_cons, readLine_text_none hl he]
      simp only [bind, Except.bind, h, List.filterMap_cons, he, List.length_cons]
      congr 2
      omega
    | some e =>
      obtain ⟨flags, h⟩ := ih ⟨st.lineno + 1, st.numRead + 1, strtokLeft ([','].intercalate e.flags),
        if e.deletesWayArea v then false else st.enableWayArea, st.exlist.addFor e.osmtype (e.info v)⟩
      refine ⟨flags, ?_⟩
      rw [List.map_cons, List.foldlM_cons, readLine_text_some hl he]
      simp only [bind, Except.bind, h, List.filterMap_cons, he, List.length_cons, List.any_cons,
        List.foldl_cons]
      congr 2
      · omega
      · omega
      · cases e.deletesWayArea v <;> simp

/-- READING BACK A WRITTEN STYLE: a file of well-formed lines is read as what its entries say,
and a file with no entry stops the import. -/
theorem readStyleFile_renderStyle {v : FlagValues} (init : List Char) {ls : List StyleLine}
    (hls : ∀ l ∈ ls, l.WellFormed v) :
    readStyleFile v init (renderStyle ls) =
      if ls.filterMap (·.entry) = [] then
        .error "Unable to parse any valid columns from the style file. Aborting.\n"
      else .ok (styleMeaning v (ls.filterMap (·.entry))) := by
  obtain ⟨flags, h⟩ := foldlM_readLine_render hls ⟨0, 0, init, true, ⟨[], []⟩⟩
  rw [readStyleFile, fgetsReads_renderStyle hls, h]
  by_cases hn : ls.filterMap (·.entry) = []
  · simp [hn, bind, Except.bind, throw, throwThe, MonadExceptOf.throw]
  · simp [hn, bind, Except.bind, pure, Except.pure, styleMeaning]

/-- A comment, a `linear` entry for nodes and ways, a comment after an entry deleting
`way_area`, a wildcard delete entry, and a blank line. -/
theorem readStyleFile_renderStyle_sample :
    (∀ l ∈ [⟨none, some " style".toList⟩, ⟨some ⟨"node,way".toList, "highway".toList, "text".toList,
        ["linear".toList]⟩, none⟩,
      ⟨some ⟨"way".toList, "way_area".toList, "real".toList, ["delete".toList]⟩, some " no column".toList⟩,
      ⟨some ⟨"node,way".toList, "note:*".toList, "text".toList, ["delete".toList]⟩, none⟩,
      (⟨none, none⟩ : StyleLine)], l.WellFormed ⟨1, 2, 4, 8, 17⟩) ∧
    readStyleFile ⟨1, 2, 4, 8, 17⟩ []
        (renderStyle [⟨none, some " style".toList⟩, ⟨some ⟨"node,way".toList, "highway".toList,
            "text".toList, ["linear".toList]⟩, none⟩,
          ⟨some ⟨"way".toList, "way_area".toList, "real".toList, ["delete".toList]⟩,
            some " no column".toList⟩,
          ⟨some ⟨"node,way".toList, "note:*".toList, "text".toList, ["delete".toList]⟩, none⟩,
          ⟨none, none⟩]) =
      .ok (⟨[⟨"highway", "text", 2⟩, ⟨"note:*", "text", 8⟩],
        [⟨"highway", "text", 2⟩, ⟨"way_area", "real", 8⟩, ⟨"note:*", "text", 8⟩]⟩, false) :=
  have hwf : ∀ l ∈ [⟨none, some " style".toList⟩, ⟨some ⟨"node,way".toList, "highway".toList,
        "text".toList, ["linear".toList]⟩, none⟩,
      ⟨some ⟨"way".toList, "way_area".toList, "real".toList, ["delete".toList]⟩, some " no column".toList⟩,
      ⟨some ⟨"node,way".toList, "note:*".toList, "text".toList, ["delete".toList]⟩, none⟩,
      (⟨none, none⟩ : StyleLine)], l.WellFormed ⟨1, 2, 4, 8, 17⟩ := by decide
  ⟨hwf, (readStyleFile_renderStyle [] hwf).trans rfl⟩

/-! ## The columns a style file gives the tables -/

theorem foldl_addFor (v : FlagValues) :
    ∀ (es : List StyleEntry) (ex : ExportList),
      es.foldl (fun ex e => ex.addFor e.osmtype (e.info v)) ex =
        ⟨ex.node ++ (es.filter (strstr "node".toList ·.osmtype)).map (·.info v),
          ex.way ++ (es.filter (strstr "way".toList ·.osmtype)).map (·.info v)⟩
  | [], ex => by simp
  | e :: es, ex => by
    rw [List.foldl_cons, foldl_addFor v es, List.filter_cons, List.filter_cons]
    unfold ExportList.addFor
    cases strstr "node".toList e.osmtype <;> cases strstr "way".toList e.osmtype <;> simp

/-- THE STYLE IS THE SCHEMA: the columns `start` gives a table from the export list a style file
means are `osm_id`, then, in the file's order, the tag and type of each entry whose object types
name the table's (nodes for the point table, ways for the others) and whose flags have no
`FLAG_DELETE` bit and not every `FLAG_PHSTORE` bit. -/
theorem tableColumns_styleMeaning (v : FlagValues) (osmidType : String) (es : List StyleEntry)
    (t : Table) :
    tableColumns v osmidType (styleMeaning v es).1 t = ("osm_id", osmidType) ::
      ((es.filter fun e => strstr (if t = .point then "node".toList else "way".toList) e.osmtype &&
          decide (flagsOf v e.flags &&& v.delete = 0 ∧ flagsOf v e.flags &&& v.phstore ≠ v.phstore)).map
        fun e => (String.mk e.tag, String.mk e.datatype)) := by
  rw [styleMeaning, foldl_addFor]
  unfold tableColumns
  congr 1
  split_ifs <;> simp [List.filter_map, List.filter_filter, Function.comp_def, StyleEntry.info, Bool.and_comm]

/-! ## Errors name their line -/

/-- Lines of at most 1022 characters, each ended by a newline, are read one per `fgets`. -/
theorem fgetsReads_lines : ∀ {ls : List (List Char)}, (∀ l ∈ ls, '\n' ∉ l ∧ l.length ≤ 1022) →
    fgetsReads (ls.flatMap (· ++ ['\n'])) [] = ls.map (· ++ ['\n'])
  | [], _ => rfl
  | l :: ls, hls => by
    have hl := hls l (List.mem_cons_self _ _)
    rw [List.flatMap_cons, List.append_assoc, List.singleton_append,
      fgetsReads_line hl.1 (by simpa using hl.2), fgetsReads_lines fun l h => hls l (List.mem_cons_of_mem _ h)]
    simp

theorem readLine_lineno {v : FlagValues} {st st' : StyleState} {buffer : List Char}
    (h : readLine v st buffer = .ok st') : st'.lineno = st.lineno + 1 := by
  unfold readLine at h
  dsimp only at h
  split at h
  · cases h; rfl
  · split_ifs at h <;> cases h <;> rfl
  · cases h

/-- The three messages one turn of the loop can end the import with. -/
theorem readLine_error {v : FlagValues} {st : StyleState} {buffer : List Char} {e : String} {k : Nat}
    (hk : st.lineno = k) (h : readLine v st buffer = .error e) :
    (∃ n : Nat, e = s!"Error reading style file line {k + 1} (fields={n})\n") ∨
      e = s!"Weird style line {k + 1}\n" ∨ ∃ name : String, e = s!"wildcard '{name}' in non-delete style entry\n" := by
  subst hk
  unfold readLine at h
  dsimp only at h
  split at h
  · cases h
  · split_ifs at h
    · cases h; exact .inr (.inr ⟨_, rfl⟩)
    · cases h; exact .inr (.inl rfl)
  · cases h; exact .inl ⟨_, rfl⟩

/-- A failed loop failed at one read, after the reads before it were accepted. -/
theorem foldlM_readLine_error {v : FlagValues} {e : String} :
    ∀ (reads : List (List Char)) (st : StyleState), reads.foldlM (readLine v) st = .error e →
      ∃ (i : Nat) (hi : i < reads.length) (st' : StyleState),
        (reads.take i).foldlM (readLine v) st = .ok st' ∧ st'.lineno = st.lineno + i ∧
          readLine v st' reads[i] = .error e
  | [], _, h => by cases h
  | b :: bs, st, h => by
    rw [List.foldlM_cons] at h
    cases hb : readLine v st b with
    | error e' =>
      rw [hb] at h
      cases h
      exact ⟨0, by simp, st, rfl, rfl, hb⟩
    | ok st₁ =>
      rw [hb] at h
      obtain ⟨i, hi, st', h₁, h₂, h₃⟩ := foldlM_readLine_error bs st₁ h
      refine ⟨i + 1, by simpa using hi, st', ?_, ?_, h₃⟩
      · rw [List.take_succ_cons, List.foldlM_cons, hb]
        exact h₁
      · rw [h₂, readLine_lineno hb]
        omega

/-- ERRORS NAME THEIR LINE: on a style file whose lines are at most 1022 characters long, a
rejection either finds no column at all, or comes from one line `i + 1`, every line before it
accepted, with a message that names line `i + 1` where the message names a line at all. -/
theorem readStyleFile_error_line {v : FlagValues} {init : List Char} {ls : List (List Char)}
    (hls : ∀ l ∈ ls, '\n' ∉ l ∧ l.length ≤ 1022) {e : String}
    (h : readStyleFile v init (ls.flatMap (· ++ ['\n'])) = .error e) :
    e = "Unable to parse any valid columns from the style file. Aborting.\n" ∨
      ∃ (i : Nat) (hi : i < ls.length) (st : StyleState),
        ((ls.take i).map (· ++ ['\n'])).foldlM (readLine v) ⟨0, 0, init, true, ⟨[], []⟩⟩ = .ok st ∧
        readLine v st (ls[i] ++ ['\n']) = .error e ∧
        ((∃ n : Nat, e = s!"Error reading style file line {i + 1} (fields={n})\n") ∨
          e = s!"Weird style line {i + 1}\n" ∨ ∃ name : String, e = s!"wildcard '{name}' in non-delete style entry\n") := by
  rw [readStyleFile, fgetsReads_lines hls] at h
  cases hf : (ls.map (· ++ ['\n'])).foldlM (readLine v) ⟨0, 0, init, true, ⟨[], []⟩⟩ with
  | error e' =>
    rw [hf] at h
    cases h
    obtain ⟨i, hi, st, h₁, h₂, h₃⟩ := foldlM_readLine_error _ _ hf
    rw [List.length_map] at hi
    have h₃' : readLine v st (ls[i] ++ ['\n']) = .error e := by simpa using h₃
    exact .inr ⟨i, hi, st, by rwa [List.map_take], h₃', readLine_error (by simpa using h₂) h₃'⟩
  | ok st =>
    rw [hf] at h
    dsimp only [bind, Except.bind] at h
    split_ifs at h
    · cases h; exact .inl rfl
    · cases h

/-- A file whose second line has one field. -/
theorem readStyleFile_error_line_second :
    (∀ l ∈ ["node,way highway text linear".toList, "way".toList], '\n' ∉ l ∧ l.length ≤ 1022) ∧
    readStyleFile ⟨1, 2, 4, 8, 17⟩ []
        (["node,way highway text linear".toList, "way".toList].flatMap (· ++ ['\n'])) =
      .error "Error reading style file line 2 (fields=1)\n" ∧
    ("Error reading style file line 2 (fields=1)\n" =
        "Unable to parse any valid columns from the style file. Aborting.\n" ∨
      ∃ (i : Nat) (hi : i < 2) (st : StyleState),
        ((["node,way highway text linear".toList, "way".toList].take i).map (· ++ ['\n'])).foldlM
          (readLine ⟨1, 2, 4, 8, 17⟩) ⟨0, 0, [], true, ⟨[], []⟩⟩ = .ok st ∧
        readLine ⟨1, 2, 4, 8, 17⟩ st (["node,way highway text linear".toList, "way".toList][i] ++ ['\n']) =
          .error "Error reading style file line 2 (fields=1)\n" ∧
        ((∃ n : Nat, "Error reading style file line 2 (fields=1)\n" =
            s!"Error reading style file line {i + 1} (fields={n})\n") ∨
          "Error reading style file line 2 (fields=1)\n" = s!"Weird style line {i + 1}\n" ∨
          ∃ name : String, "Error reading style file line 2 (fields=1)\n" =
            s!"wildcard '{name}' in non-delete style entry\n")) :=
  have hls : ∀ l ∈ ["node,way highway text linear".toList, "way".toList], '\n' ∉ l ∧ l.length ≤ 1022 := by
    decide
  have h : readStyleFile ⟨1, 2, 4, 8, 17⟩ []
      (["node,way highway text linear".toList, "way".toList].flatMap (· ++ ['\n'])) =
        .error "Error reading style file line 2 (fields=1)\n" := rfl
  ⟨hls, h, readStyleFile_error_line hls h⟩

/- A NUL ends the C string `sscanf` reads: the line `node a<NUL>b text linear` has two fields. -/
example : readStyleFile ⟨1, 2, 4, 8, 17⟩ [] ("node a".toList ++ nul :: "b text linear\n".toList) =
    .error "Error reading style file line 1 (fields=2)\n" := rfl

end Style

end OsmPgsql
