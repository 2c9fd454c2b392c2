import Mathlib.Data.List.Basic
import OsmPgsql.Basic

/-!
# The style file

`read_style_file` (lines 77–188) reads the style file line by line with `fgets`, cuts each line
at its first `#`, splits it with `sscanf("%23s %63s %23s %127s")`, tokenises the fourth field
with `strtok` on `",\r\n"`, and appends one `taginfo` per line to the node list, the way list, or
both. The model is at the level of characters, each `Char` of the file standing for one byte:
`fgetsReads` for the reads, `sscanfWords` for the conversions, `strtok` for one tokenising call,
and `readLine` for one turn of the loop over the locals the source keeps between turns.

`fgets` copies the bytes of a line whatever they are, a NUL among them, but `strchr` and
`sscanf` read the buffer as a C string, which ends at its first NUL: what a line says is
`lineText`, the C string cut at its first `#`.

The source keeps the fourth field in the buffer `flags[128]`, which `sscanf` writes only when it
converts a fourth word. The `strtok` loop writes a NUL over the delimiter that ends the first
token, so what the buffer holds afterwards tokenises to that first token alone
(`strtokLoop_strtokLeft`). A line with three fields therefore gets the flags of the first token
of the last fourth field read before it, or of whatever the buffer held at the start
(`readLine_flags`, and `style_flags_carried` at a two-line file).

What every accepted file satisfies is `readStyleFile_wellFormed`, from the loop invariant
`StyleInv`: an entry has a wildcard only if its flags are exactly `FLAG_DELETE` (the spec's
invariant of a `taginfo`), `enable_way_area` is off exactly when an entry deletes `way_area`,
and the export list is not empty. `start` (lines 438–452) turns the lists into table columns
(`tableColumns`), skipping delete entries, so no column of a table has a wildcard name
(`tableColumns_no_wildcard`).

The flag values come from `taginfo_impl.hpp`, which is not part of this source; they are a
parameter (`FlagValues`). Warnings on unknown flags change nothing and are left out, as is the
`fopen` failure: the file is given as its characters.
-/

set_option autoImplicit false

namespace OsmPgsql

namespace Style

/-- The values of `FLAG_POLYGON`, `FLAG_LINEAR`, `FLAG_NOCACHE`, `FLAG_DELETE` and
`FLAG_PHSTORE`. -/
structure FlagValues where
  polygon : Nat
  linear : Nat
  nocache : Nat
  delete : Nat
  phstore : Nat
  deriving DecidableEq, Repr

/-- `tagflags` (lines 68–74). -/
def tagflags (v : FlagValues) : List (String × Nat) :=
  [("polygon", v.polygon), ("linear", v.linear), ("nocache", v.nocache), ("delete", v.delete),
    ("phstore", v.phstore)]

/-- `struct taginfo` as the style file fills it. -/
structure TagInfo where
  name : String
  type : String
  flags : Nat
  deriving DecidableEq, Repr

/-- The node and way lists of `export_list`, in the order `add` appends to them. -/
structure ExportList where
  node : List TagInfo
  way : List TagInfo
  deriving DecidableEq, Repr

/-! ## The C library calls -/

/-- The NUL byte, which ends a C string. -/
def nul : Char := Char.ofNat 0

/-- The C string a character array holds: its characters before the first NUL. -/
def cString (buffer : List Char) : List Char := buffer.takeWhile (· ≠ nul)

/-- The reads of `fgets(buffer, sizeof(buffer), in)`, one after another: each ends after a
newline or after 1023 characters, the last one at the end of the file. `cur` is the read so far,
reversed. -/
def fgetsReads : List Char → List Char → List (List Char)
  | [], [] => []
  | [], cur => [cur.reverse]
  | c :: cs, cur =>
    if c = '\n' ∨ cur.length + 1 = 1023 then (c :: cur).reverse :: fgetsReads cs []
    else fgetsReads cs (c :: cur)

/-- `isspace` in the C locale: blank, tab, newline, vertical tab, form feed, return. -/
def isSpace (c : Char) : Bool := c = ' ' || (9 ≤ c.toNat && c.toNat ≤ 13)

/-- One `%Ns` conversion: leading white space skipped, then at most `width` characters up to the
next white space. None when the input ends first. -/
def scanWord (width : Nat) (s : List Char) : Option (List Char × List Char) :=
  match s.dropWhile isSpace with
  | [] => none
  | t =>
    let w := (t.takeWhile (!isSpace ·)).take width
    some (w, t.drop w.length)

/-- `sscanf(buffer, "%23s %63s %23s %127s", ...)`: the words converted, in order, as many as
succeed. No word at all is `EOF`, which the caller handles as it handles a count of 0. -/
def sscanfWords : List Nat → List Char → List (List Char)
  | [], _ => []
  | width :: widths, s =>
    match scanWord width s with
    | none => []
    | some (w, rest) => w :: sscanfWords widths rest

/-- The delimiters of `strtok(flags, ",\r\n")`. -/
def isFlagDelim (c : Char) : Bool := c = ',' || c = '\r' || c = '\n'

/-- One `strtok` call on what is left of the string: leading delimiters skipped, the token up to
the next delimiter, which the call overwrites with a NUL, and the rest after it. None at the end
of the string. -/
def strtok (s : List Char) : Option (List Char × List Char) :=
  match s.dropWhile isFlagDelim with
  | [] => none
  | t => some (t.takeWhile (!isFlagDelim ·), (t.dropWhile (!isFlagDelim ·)).drop 1)

/-- The loop `for (str = strtok(flags, ...); str; str = strtok(NULL, ...))`: its tokens. Every
call shortens the string, so one turn per character and one more are enough
(`strtokLoop_fuel`). -/
def strtokLoop : Nat → List Char → List (List Char)
  | 0, _ => []
  | fuel + 1, s =>
    match strtok s with
    | none => []
    | some (tok, rest) => tok :: strtokLoop fuel rest

/-- The C string `flags` holds after the loop: the first call writes a NUL over the delimiter
that ends the first token, and the later calls write only past it. -/
def strtokLeft (s : List Char) : List Char :=
  match strtok s with
  | none => s
  | some (tok, _) => s.takeWhile isFlagDelim ++ tok

/-- `strstr(haystack, needle) != NULL`. -/
def strstr (needle : List Char) : List Char → Bool
  | [] => needle.isEmpty
  | c :: cs => needle.isPrefixOf (c :: cs) || strstr needle cs

/-! ## One line -/

/-- The bit mask of the known flags among the tokens: the inner loop over `tagflags`. -/
def flagsOf (v : FlagValues) (toks : List (List Char)) : Nat :=
  toks.foldl (fun acc tok =>
    match (tagflags v).find? (·.1.toList = tok) with
    | some (_, f) => acc ||| f
    | none => acc) 0

/-- The `taginfo` of a line: its tag, its type, and the flags of the tokens of `flags`. -/
def lineInfo (v : FlagValues) (tag datatype flags : List Char) : TagInfo :=
  ⟨String.mk tag, String.mk datatype, flagsOf v (strtokLoop (flags.length + 1) flags)⟩

/-- The two appends, `if (strstr(osmtype, "node"))` and `if (strstr(osmtype, "way"))`. -/
def ExportList.addFor (ex : ExportList) (osmtype : List Char) (temp : TagInfo) : ExportList :=
  ⟨if strstr "node".toList osmtype then ex.node ++ [temp] else ex.node,
   if strstr "way".toList osmtype then ex.way ++ [temp] else ex.way⟩

/-- The locals of `read_style_file` that live from one line to the next: the line number, the
count of lines read, the C string in `flags`, the result, and the export list. -/
structure StyleState where
  lineno : Nat
  numRead : Nat
  flags : List Char
  enableWayArea : Bool
  exlist : ExportList

/-- What `sscanf` reads of the line in `buffer`: its C string, cut at the first `#`, where
`strchr` writes a NUL (lines 105–111). -/
def lineText (buffer : List Char) : List Char := (cString buffer).takeWhile (· ≠ '#')

/-- One turn of the `fgets` loop. -/
def readLine (v : FlagValues) (st : StyleState) (buffer : List Char) : Except String StyleState :=
  let lineno := st.lineno + 1
  let words := sscanfWords [23, 63, 23, 127] (lineText buffer)
  match words with
  | [] => .ok { st with lineno }
  | osmtype :: tag :: datatype :: rest =>
    let flags := rest.headD st.flags
    let temp := lineInfo v tag datatype flags
    if temp.flags ≠ v.delete ∧ ('?' ∈ tag ∨ '*' ∈ tag) then
      .error s!"wildcard '{temp.name}' in non-delete style entry\n"
    else if !strstr "node".toList osmtype && !strstr "way".toList osmtype then
      .error s!"Weird style line {lineno}\n"
    else
      .ok ⟨lineno, st.numRead + 1, strtokLeft flags,
        if temp.name = "way_area" ∧ temp.flags = v.delete then false else st.enableWayArea,
        st.exlist.addFor osmtype temp⟩
  | _ => .error s!"Error reading style file line {lineno} (fields={words.length})\n"

/-- `read_style_file` on the characters of the file, with `init` the C string the uninitialised
buffer `flags` happens to hold. -/
def readStyleFile (v : FlagValues) (init : List Char) (file : List Char) :
    Except String (ExportList × Bool) := do
  let st ← (fgetsReads file []).foldlM (readLine v) ⟨0, 0, init, true, ⟨[], []⟩⟩
  if st.numRead = 0 then throw "Unable to parse any valid columns from the style file. Aborting.\n"
  return (st.exlist, st.enableWayArea)

/-! ## The flags buffer -/

theorem strtokLoop_nil (fuel : Nat) : strtokLoop fuel [] = [] := by
  cases fuel <;> rfl

/-- A `strtok` call leaves less than it was given. -/
theorem strtok_length {s tok rest : List Char} (h : strtok s = some (tok, rest)) :
    rest.length < s.length := by
  cases ht : s.dropWhile isFlagDelim with
  | nil => simp [strtok, ht] at h
  | cons c t =>
    simp only [strtok, ht, Option.some.injEq, Prod.mk.injEq] at h
    have hs : (c :: t).length ≤ s.length := ht ▸ (List.dropWhile_suffix isFlagDelim).length_le
    have hd := (List.dropWhile_suffix (l := c :: t) (!isFlagDelim ·)).length_le
    rw [← h.2, List.length_drop]
    simp only [List.length_cons] at hs hd
    omega

/-- Fuel past the length of the string changes nothing. -/
theorem strtokLoop_fuel : ∀ {m n : Nat} {s : List Char}, s.length < m → s.length < n →
    strtokLoop m s = strtokLoop n s
  | m + 1, n + 1, s, hm, hn => by
    cases h : strtok s with
    | none => simp [strtokLoop, h]
    | some p =>
      have hp := strtok_length h
      simp only [strtokLoop, h]
      exact congrArg _ (strtokLoop_fuel (by omega) (by omega))

/-- What the first `strtok` call leaves in the buffer, the leading delimiters and the first token,
has that token as its only one. -/
theorem strtok_strtokLeft {s tok rest : List Char} (h : strtok s = some (tok, rest)) :
    strtok (strtokLeft s) = some (tok, []) := by
  cases ht : s.dropWhile isFlagDelim with
  | nil => simp [strtok, ht] at h
  | cons c t =>
    have hc : isFlagDelim c = false := by simpa [ht] using List.head?_dropWhile_not isFlagDelim s
    have hleft : strtokLeft s = s.takeWhile isFlagDelim ++ c :: t.takeWhile (!isFlagDelim ·) := by
      simp [strtokLeft, strtok, ht, hc]
    simp only [strtok, ht, hc, List.takeWhile_cons, Bool.not_false, if_true, Option.some.injEq,
      Prod.mk.injEq] at h
    obtain ⟨rfl, -⟩ := h
    have hnil : (t.takeWhile (!isFlagDelim ·)).dropWhile (!isFlagDelim ·) = [] :=
      List.dropWhile_eq_nil_iff.mpr fun a ha => by simpa using List.mem_takeWhile_imp ha
    rw [hleft, strtok, List.dropWhile_append_of_pos fun a ha => List.mem_takeWhile_imp ha]
    simp [hc, List.takeWhile_cons, List.takeWhile_idem, hnil]

/-- Tokenising again what the loop left in the buffer gives back its first token alone. -/
theorem strtokLoop_strtokLeft (s : List Char) (m n : Nat) :
    strtokLoop (m + 1) (strtokLeft s) = (strtokLoop (n + 1) s).take 1 := by
  cases h : strtok s with
  | none => simp [strtokLeft, strtokLoop, h]
  | some p => simp [strtokLoop, h, strtok_strtokLeft h, strtokLoop_nil]

/-- A line with at least three fields: its entry has the flags of its fourth field if it has one
and of the buffer otherwise, and the buffer keeps what `strtok` left of those. -/
theorem readLine_flags {v : FlagValues} {st st' : StyleState}
    {buffer osmtype tag datatype : List Char} {rest : List (List Char)}
    (hw : sscanfWords [23, 63, 23, 127] (lineText buffer) = osmtype :: tag :: datatype :: rest)
    (h : readLine v st buffer = .ok st') :
    st'.flags = strtokLeft (rest.headD st.flags) ∧
    st'.exlist = st.exlist.addFor osmtype (lineInfo v tag datatype (rest.headD st.flags)) := by
  unfold readLine at h
  simp only [hw] at h
  split_ifs at h <;> cases h <;> exact ⟨rfl, rfl⟩

/-- THE CARRIED FLAGS: a line with three fields, read right after a line whose fourth field is
`f`, gets the flags of the first token of `f`. -/
theorem readLine_flags_carried {v : FlagValues} {st st₁ st₂ : StyleState}
    {b₁ b₂ o₁ t₁ d₁ f o₂ t₂ d₂ : List Char}
    (hw₁ : sscanfWords [23, 63, 23, 127] (lineText b₁) = [o₁, t₁, d₁, f])
    (hw₂ : sscanfWords [23, 63, 23, 127] (lineText b₂) = [o₂, t₂, d₂])
    (h₁ : readLine v st b₁ = .ok st₁) (h₂ : readLine v st₁ b₂ = .ok st₂) :
    st₂.exlist = st₁.exlist.addFor o₂
      ⟨String.mk t₂, String.mk d₂, flagsOf v ((strtokLoop (f.length + 1) f).take 1)⟩ := by
  obtain ⟨hf, -⟩ := readLine_flags hw₁ h₁
  rw [(readLine_flags hw₂ h₂).2, lineInfo, List.headD_nil, hf, List.headD_cons,
    strtokLoop_strtokLeft f _ f.length]

/-- The first two lines of `style_flags_carried`'s first file, turn by turn. -/
theorem readLine_flags_carried_polygon :
    sscanfWords [23, 63, 23, 127] (lineText "node a text polygon\n".toList) =
      ["node".toList, "a".toList, "text".toList, "polygon".toList] ∧
    sscanfWords [23, 63, 23, 127] (lineText "node b text\n".toList) =
      ["node".toList, "b".toList, "text".toList] ∧
    readLine ⟨1, 2, 4, 8, 17⟩ ⟨0, 0, [], true, ⟨[], []⟩⟩ "node a text polygon\n".toList =
      .ok ⟨1, 1, "polygon".toList, true, ⟨[⟨"a", "text", 1⟩], []⟩⟩ ∧
    readLine ⟨1, 2, 4, 8, 17⟩ ⟨1, 1, "polygon".toList, true, ⟨[⟨"a", "text", 1⟩], []⟩⟩
        "node b text\n".toList =
      .ok ⟨2, 2, "polygon".toList, true, ⟨[⟨"a", "text", 1⟩, ⟨"b", "text", 1⟩], []⟩⟩ ∧
    (StyleState.exlist ⟨2, 2, "polygon".toList, true, ⟨[⟨"a", "text", 1⟩, ⟨"b", "text", 1⟩], []⟩⟩) =
      (StyleState.exlist ⟨1, 1, "polygon".toList, true, ⟨[⟨"a", "text", 1⟩], []⟩⟩).addFor
        "node".toList ⟨String.mk "b".toList, String.mk "text".toList,
          flagsOf ⟨1, 2, 4, 8, 17⟩ ((strtokLoop ("polygon".toList.length + 1) "polygon".toList).take 1)⟩ :=
  have hw₁ : sscanfWords [23, 63, 23, 127] (lineText "node a text polygon\n".toList) =
      ["node".toList, "a".toList, "text".toList, "polygon".toList] := by decide
  have hw₂ : sscanfWords [23, 63, 23, 127] (lineText "node b text\n".toList) =
      ["node".toList, "b".toList, "text".toList] := by decide
  have h₁ : readLine ⟨1, 2, 4, 8, 17⟩ ⟨0, 0, [], true, ⟨[], []⟩⟩ "node a text polygon\n".toList =
      .ok ⟨1, 1, "polygon".toList, true, ⟨[⟨"a", "text", 1⟩], []⟩⟩ := rfl
  have h₂ : readLine ⟨1, 2, 4, 8, 17⟩ ⟨1, 1, "polygon".toList, true, ⟨[⟨"a", "text", 1⟩], []⟩⟩
      "node b text\n".toList =
      .ok ⟨2, 2, "polygon".toList, true, ⟨[⟨"a", "text", 1⟩, ⟨"b", "text", 1⟩], []⟩⟩ := rfl
  ⟨hw₁, hw₂, h₁, h₂, readLine_flags_carried hw₁ hw₂ h₁ h₂⟩

/-! ## What an accepted style satisfies -/

theorem ExportList.mem_addFor {ex : ExportList} {osmtype : List Char} {temp ti : TagInfo} :
    ti ∈ (ex.addFor osmtype temp).node ++ (ex.addFor osmtype temp).way ↔
      ti ∈ ex.node ++ ex.way ∨
        (ti = temp ∧ (strstr "node".toList osmtype = true ∨ strstr "way".toList osmtype = true)) := by
  unfold ExportList.addFor
  cases strstr "node".toList osmtype <;> cases strstr "way".toList osmtype <;>
    simp [or_comm, or_left_comm]

/-- Everything a turn that does not stop the import can do: a blank line leaves the export
list, the count and the result alone; any other line appends its entry under a type naming nodes
or ways, an entry with a wildcard only if it is a delete entry, counts one line read, and turns
`enable_way_area` off when the entry deletes `way_area`. -/
theorem readLine_ok {v : FlagValues} {st st' : StyleState} {buffer : List Char}
    (h : readLine v st buffer = .ok st') :
    (st'.exlist = st.exlist ∧ st'.numRead = st.numRead ∧ st'.enableWayArea = st.enableWayArea) ∨
    ∃ osmtype temp, (temp.flags ≠ v.delete → '?' ∉ temp.name.toList ∧ '*' ∉ temp.name.toList) ∧
      (strstr "node".toList osmtype = true ∨ strstr "way".toList osmtype = true) ∧
      st'.exlist = st.exlist.addFor osmtype temp ∧ st'.numRead = st.numRead + 1 ∧
      st'.enableWayArea =
        if temp.name = "way_area" ∧ temp.flags = v.delete then false else st.enableWayArea := by
  unfold readLine at h
  dsimp only at h
  split at h
  · cases h; exact .inl ⟨rfl, rfl, rfl⟩
  · rename_i osmtype _ _ _ _
    split at h
    · cases h
    rename_i hwild
    split at h
    · cases h
    rename_i hkept
    cases h
    refine .inr ⟨_, _, fun hf => not_or.mp fun hw => hwild ⟨hf, hw⟩, ?_, rfl, rfl, rfl⟩
    cases hn : strstr "node".toList osmtype <;> simp_all
  · cases h

/-- What the loop keeps: an entry has a wildcard only if it is a delete entry,
`enable_way_area` is off exactly when an entry deletes `way_area`, and once a line is read the
export list is not empty. -/
structure StyleInv (v : FlagValues) (st : StyleState) : Prop where
  wildcards : ∀ ti ∈ st.exlist.node ++ st.exlist.way,
    ti.flags ≠ v.delete → '?' ∉ ti.name.toList ∧ '*' ∉ ti.name.toList
  way_area : st.enableWayArea = false ↔
    ∃ ti ∈ st.exlist.node ++ st.exlist.way, ti.name = "way_area" ∧ ti.flags = v.delete
  nonempty : 0 < st.numRead → st.exlist.node ++ st.exlist.way ≠ []

theorem readLine_inv {v : FlagValues} {st st' : StyleState} {buffer : List Char}
    (hi : StyleInv v st) (h : readLine v st buffer = .ok st') : StyleInv v st' := by
  rcases readLine_ok h with ⟨hex, hn, hw⟩ | ⟨osmtype, temp, hwild, hkept, hex, hn, hw⟩
  · exact ⟨hex ▸ hi.wildcards, hex ▸ hw ▸ hi.way_area, hex ▸ hn ▸ hi.nonempty⟩
  · have hmem : temp ∈ st'.exlist.node ++ st'.exlist.way :=
      hex ▸ ExportList.mem_addFor.mpr (.inr ⟨rfl, hkept⟩)
    refine ⟨fun ti hti => ?_, ?_, fun _ => List.ne_nil_of_mem hmem⟩
    · rcases ExportList.mem_addFor.mp (hex ▸ hti) with hti | ⟨rfl, -⟩
      · exact hi.wildcards ti hti
      · exact hwild
    · rw [hw]
      split_ifs with hwa
      · exact iff_of_true rfl ⟨temp, hmem, hwa⟩
      · rw [hi.way_area]
        constructor
        · rintro ⟨ti, hti, hti'⟩
          exact ⟨ti, hex ▸ ExportList.mem_addFor.mpr (.inl hti), hti'⟩
        · rintro ⟨ti, hti, hti'⟩
          rcases ExportList.mem_addFor.mp (hex ▸ hti) with hti | ⟨rfl, -⟩
          · exact ⟨ti, hti, hti'⟩
          · exact (hwa hti').elim

theorem foldlM_readLine_inv {v : FlagValues} :
    ∀ {reads : List (List Char)} {st st' : StyleState}, StyleInv v st →
      reads.foldlM (readLine v) st = .ok st' → StyleInv v st'
  | [], _, _, hi, h => by cases h; exact hi
  | b :: bs, st, _, hi, h => by
    rw [List.foldlM_cons] at h
    cases hl : readLine v st b with
    | error e => rw [hl] at h; cases h
    | ok st₁ => rw [hl] at h; exact foldlM_readLine_inv (readLine_inv hi hl) h

/-- An accepted file: the loop ran to its end in a state that keeps the invariant and has read
a line, and the result is that state's export list and flag. -/
theorem readStyleFile_inv {v : FlagValues} {init file : List Char} {ex : ExportList}
    {enableWayArea : Bool} (h : readStyleFile v init file = .ok (ex, enableWayArea)) :
    ∃ st : StyleState, StyleInv v st ∧ 0 < st.numRead ∧ st.exlist = ex ∧
      st.enableWayArea = enableWayArea := by
  have h₀ : StyleInv v ⟨0, 0, init, true, ⟨[], []⟩⟩ := ⟨by simp, by simp, by simp⟩
  unfold readStyleFile at h
  cases hf : (fgetsReads file []).foldlM (readLine v) ⟨0, 0, init, true, ⟨[], []⟩⟩ with
  | error e => rw [hf] at h; cases h
  | ok st =>
    rw [hf] at h
    by_cases hn : st.numRead = 0
    · simp only [hn, bind, Except.bind, if_true, throw, throwThe, MonadExceptOf.throw] at h
      cases h
    · simp only [hn, bind, Except.bind, if_false, pure, Except.pure, Except.ok.injEq,
        Prod.mk.injEq] at h
      exact ⟨st, foldlM_readLine_inv h₀ hf, Nat.pos_of_ne_zero hn, h.1, h.2⟩

/-- AN ACCEPTED STYLE IS WELL FORMED: an entry has a `?` or `*` in its name only if its flags
are exactly `FLAG_DELETE`; `enable_way_area` is 0 exactly when an entry named `way_area` has
the flags `FLAG_DELETE`; and the export list has an entry. -/
theorem readStyleFile_wellFormed {v : FlagValues} {init file : List Char} {ex : ExportList}
    {enableWayArea : Bool} (h : readStyleFile v init file = .ok (ex, enableWayArea)) :
    (∀ ti ∈ ex.node ++ ex.way, ti.flags ≠ v.delete → '?' ∉ ti.name.toList ∧ '*' ∉ ti.name.toList) ∧
    (enableWayArea = false ↔ ∃ ti ∈ ex.node ++ ex.way, ti.name = "way_area" ∧ ti.flags = v.delete) ∧
    ex.node ++ ex.way ≠ [] := by
  obtain ⟨st, hi, hn, rfl, rfl⟩ := readStyleFile_inv h
  exact ⟨hi.wildcards, hi.way_area, hi.nonempty hn⟩

/-- The style of the spec's first scenario is accepted, one `linear` entry for nodes and
ways. -/
theorem readStyleFile_wellFormed_scenario :
    readStyleFile ⟨1, 2, 4, 8, 17⟩ [] "node,way highway text linear\n".toList =
        .ok (⟨[⟨"highway", "text", 2⟩], [⟨"highway", "text", 2⟩]⟩, true) ∧
    (∀ ti ∈ [(⟨"highway", "text", 2⟩ : TagInfo)] ++ [⟨"highway", "text", 2⟩],
      ti.flags ≠ (⟨1, 2, 4, 8, 17⟩ : FlagValues).delete →
        '?' ∉ ti.name.toList ∧ '*' ∉ ti.name.toList) ∧
    (true = false ↔ ∃ ti ∈ [(⟨"highway", "text", 2⟩ : TagInfo)] ++ [⟨"highway", "text", 2⟩],
      ti.name = "way_area" ∧ ti.flags = (⟨1, 2, 4, 8, 17⟩ : FlagValues).delete) ∧
    [(⟨"highway", "text", 2⟩ : TagInfo)] ++ [⟨"highway", "text", 2⟩] ≠ [] :=
  have h : readStyleFile ⟨1, 2, 4, 8, 17⟩ [] "node,way highway text linear\n".toList =
      .ok (⟨[⟨"highway", "text", 2⟩], [⟨"highway", "text", 2⟩]⟩, true) := rfl
  ⟨h, readStyleFile_wellFormed h⟩

/-! ## The table columns -/

/-- The columns `start` gives table `t` (lines 438–452): `osm_id` of the type `osmidType`
(`POSTGRES_OSMID_TYPE`, not part of this source), then each entry of the node list for the
point table and of the way list for the others, in order, less those with a `FLAG_DELETE` bit
and those with every `FLAG_PHSTORE` bit. -/
def tableColumns (v : FlagValues) (osmidType : String) (ex : ExportList) (t : Table) :
    List (String × String) :=
  ("osm_id", osmidType) ::
    (((if t = .point then ex.node else ex.way).filter fun info =>
        info.flags &&& v.delete = 0 ∧ info.flags &&& v.phstore ≠ v.phstore).map
      fun info => (info.name, info.type))

/-- NO WILDCARD COLUMN: when `FLAG_DELETE` is not zero, no table built from an accepted style has
a column whose name holds `?` or `*`: a wildcard entry is a delete entry, and `start` skips
those. -/
theorem tableColumns_no_wildcard {v : FlagValues} (hdel : v.delete ≠ 0) {init file : List Char}
    {ex : ExportList} {enableWayArea : Bool}
    (h : readStyleFile v init file = .ok (ex, enableWayArea)) (osmidType : String) (t : Table) :
    ∀ c ∈ tableColumns v osmidType ex t, '?' ∉ c.1.toList ∧ '*' ∉ c.1.toList := by
  obtain ⟨st, hi, -, rfl, -⟩ := readStyleFile_inv h
  intro c hc
  simp only [tableColumns, List.mem_cons, List.mem_map, List.mem_filter, decide_eq_true_eq] at hc
  rcases hc with rfl | ⟨info, ⟨hinfo, hd, -⟩, rfl⟩
  · exact show '?' ∉ "osm_id".toList ∧ '*' ∉ "osm_id".toList by decide
  · have hne : info.flags ≠ v.delete := fun e => hdel (by rwa [e, Nat.and_self] at hd)
    have hmem : info ∈ st.exlist.node ++ st.exlist.way := by
      split_ifs at hinfo <;> simp [hinfo]
    exact hi.wildcards info hmem hne

theorem tableColumns_no_wildcard_scenario :
    (⟨1, 2, 4, 8, 17⟩ : FlagValues).delete ≠ 0 ∧
    readStyleFile ⟨1, 2, 4, 8, 17⟩ [] "node,way highway text linear\n".toList =
      .ok (⟨[⟨"highway", "text", 2⟩], [⟨"highway", "text", 2⟩]⟩, true) ∧
    ∀ c ∈ tableColumns ⟨1, 2, 4, 8, 17⟩ "int8" ⟨[⟨"highway", "text", 2⟩], [⟨"highway", "text", 2⟩]⟩
      .line, '?' ∉ c.1.toList ∧ '*' ∉ c.1.toList :=
  have hdel : (⟨1, 2, 4, 8, 17⟩ : FlagValues).delete ≠ 0 := by decide
  have h : readStyleFile ⟨1, 2, 4, 8, 17⟩ [] "node,way highway text linear\n".toList =
      .ok (⟨[⟨"highway", "text", 2⟩], [⟨"highway", "text", 2⟩]⟩, true) := rfl
  ⟨hdel, h, tableColumns_no_wildcard hdel h "int8" .line⟩

/-- A line with no fourth field gets `FLAG_POLYGON` from the line before it, or from what the
buffer held at the start; after `linear,polygon` only `linear` is carried. -/
theorem style_flags_carried :
    readStyleFile ⟨1, 2, 4, 8, 17⟩ [] "node a text polygon\nnode b text\n".toList =
      .ok (⟨[⟨"a", "text", 1⟩, ⟨"b", "text", 1⟩], []⟩, true) ∧
    readStyleFile ⟨1, 2, 4, 8, 17⟩ [] "way a text linear,polygon\nway b text\n".toList =
      .ok (⟨[], [⟨"a", "text", 3⟩, ⟨"b", "text", 2⟩]⟩, true) ∧
    readStyleFile ⟨1, 2, 4, 8, 17⟩ "polygon".toList "node b text\n".toList =
      .ok (⟨[⟨"b", "text", 1⟩], []⟩, true) :=
  ⟨rfl, rfl, rfl⟩

end Style

end OsmPgsql
