import SmartPlanner.IcsFolding

/-!
The calendar file read back: a reader that cuts the lines at every line end,
unfolds them and unescapes text values finds one event for each row, except that
a title with a carriage return, which `icsText` leaves alone, cuts its own line.
-/

namespace SmartPlanner.PlannerExport

open Decimal PlannerTime Utf16 Lines

/-- What a continuation line begins with. -/
def isBlank (unit : UInt16) : Bool := unit = space ∨ unit = tab

/-- A text value without its escapes. -/
def unescape : JsString → JsString
  | [] => []
  | [unit] => [unit]
  | first :: second :: rest =>
      if first = backslash ∧ second ∈ [backslash, semicolon, comma] then second :: unescape rest
      else if first = backslash ∧ second ∈ ofString "nN" then lf :: unescape rest
      else first :: unescape (second :: rest)

/-- The properties of the file whose values are texts. -/
def textProperties : List JsString :=
  ["CALSCALE", "PRODID", "SUMMARY", "UID", "VERSION"].map ofString

/-- The name and the value of a line. -/
def property (line : JsString) : JsString × JsString :=
  let name := line.takeWhile (· ≠ colon)
  let value := line.drop (name.length + 1)
  (name, if name ∈ textProperties then unescape value else value)

def readCalendar (file : JsString) : List (JsString × JsString) :=
  (unfold isBlank (lines cr lf file)).map property

/-- `YYYYMMDDTHHMMSSZ`. -/
def basicTime (instant : Int) : List Char :=
  (yearText (utcDate instant).year).filter (· ≠ '-') ++ pad 2 (utcDate instant).month.toNat ++
    pad 2 (utcDate instant).day.toNat ++ 'T' :: pad 2 (instant / 3600000000 % 24).toNat ++
    pad 2 (instant / 60000000 % 60).toNat ++ pad 2 (instant / 1000000 % 60).toNat ++ ['Z']

section
variable (schedule : SavedSchedule)

/-- The event of a row. -/
def event (row : ExportRow) : List (JsString × JsString) :=
  [(ofString "BEGIN", ofString "VEVENT"),
    (ofString "UID", ofChars (uuidText schedule.id) ++ ofString "-" ++ row.id ++
      ofString "@smartplanner"),
    (ofString "DTSTAMP", ofChars (basicTime schedule.updatedAt)),
    (ofString "DTSTART", ofChars (basicTime row.start)),
    (ofString "DTEND", ofChars (basicTime row.stop)),
    (ofString "SUMMARY", row.title),
    (ofString "END", ofString "VEVENT")]

/-- The calendar of the rows: header, one event for each, footer. -/
def calendar (rows : List ExportRow) : List (JsString × JsString) :=
  [(ofString "BEGIN", ofString "VCALENDAR"), (ofString "VERSION", ofString "2.0"),
    (ofString "PRODID", ofString "-//SmartPlanner//Schedule//EN"),
    (ofString "CALSCALE", ofString "GREGORIAN")] ++
  rows.flatMap (event schedule) ++ [(ofString "END", ofString "VCALENDAR")]

end

/-! Escaping. -/

/-- The four replacements of `icsText` as one. -/
def escape (unit : UInt16) : JsString :=
  if unit = backslash then [backslash, backslash]
  else if unit = lf then ofString "\\n"
  else if unit = comma then [backslash, comma]
  else if unit = semicolon then [backslash, semicolon]
  else [unit]

theorem escape_eq {unit : UInt16} (hbackslash : unit ≠ backslash) (hlf : unit ≠ lf)
    (hcomma : unit ≠ comma) (hsemicolon : unit ≠ semicolon) : escape unit = [unit] := by
  rw [escape, if_neg hbackslash, if_neg hlf, if_neg hcomma, if_neg hsemicolon]

/-- A unit is one of the four that are escaped, or none of them. -/
theorem escape_cases {P : UInt16 → Prop} (atBackslash : P backslash) (atFeed : P lf)
    (atComma : P comma) (atSemicolon : P semicolon)
    (others : ∀ unit, unit ≠ backslash → unit ≠ lf → unit ≠ comma → unit ≠ semicolon → P unit)
    (unit : UInt16) : P unit := by
  by_cases hbackslash : unit = backslash
  · exact hbackslash ▸ atBackslash
  by_cases hlf : unit = lf
  · exact hlf ▸ atFeed
  by_cases hcomma : unit = comma
  · exact hcomma ▸ atComma
  by_cases hsemicolon : unit = semicolon
  · exact hsemicolon ▸ atSemicolon
  · exact others unit hbackslash hlf hcomma hsemicolon

theorem icsText_eq (value : JsString) : icsText value = value.flatMap escape := by
  unfold icsText replaceAll
  rw [List.flatMap_assoc, List.flatMap_assoc, List.flatMap_assoc]
  refine congrArg (List.flatMap · value) (funext ?_)
  refine escape_cases rfl rfl rfl rfl fun unit hbackslash hlf hcomma hsemicolon => ?_
  rw [escape_eq hbackslash hlf hcomma hsemicolon]
  simp [hbackslash, hlf, hcomma, hsemicolon]

theorem unescape_cons_of_ne {unit : UInt16} (h : unit ≠ backslash) (text : JsString) :
    unescape (unit :: text) = unit :: unescape text := by
  cases text with
  | nil => rfl
  | cons second rest => rw [unescape, if_neg fun both => h both.1, if_neg fun both => h both.1]

theorem unescape_escape_append (unit : UInt16) (text : JsString) :
    unescape (escape unit ++ text) = unit :: unescape text := by
  refine @escape_cases (fun unit => unescape (escape unit ++ text) = unit :: unescape text)
    rfl rfl rfl rfl (fun unit hbackslash hlf hcomma hsemicolon => ?_) unit
  rw [escape_eq hbackslash hlf hcomma hsemicolon]
  exact unescape_cons_of_ne hbackslash text

theorem unescape_icsText (value : JsString) : unescape (icsText value) = value := by
  rw [icsText_eq]
  induction value with
  | nil => rfl
  | cons unit value ih => rw [List.flatMap_cons, unescape_escape_append, ih]

theorem unescape_eq {text : JsString} (h : backslash ∉ text) : unescape text = text := by
  induction text with
  | nil => rfl
  | cons unit text ih =>
      rw [List.mem_cons, not_or] at h
      rw [unescape_cons_of_ne (Ne.symm h.1), ih h.2]

/-- Escapes stand for line feeds and for symbols that are there. -/
theorem mem_of_mem_unescape {text : JsString} {unit : UInt16} (h : unit ∈ unescape text) :
    unit = lf ∨ unit ∈ text := by
  fun_induction unescape text with
  | case1 => exact absurd h List.not_mem_nil
  | case2 => exact Or.inr h
  | case3 first second rest escaped ih =>
      rcases List.mem_cons.mp h with rfl | h
      · simp
      · exact (ih h).imp_right fun h => by simp [h]
  | case4 first second rest kept escaped ih =>
      rcases List.mem_cons.mp h with rfl | h
      · exact Or.inl rfl
      · exact (ih h).imp_right fun h => by simp [h]
  | case5 first second rest kept plain ih =>
      rcases List.mem_cons.mp h with rfl | h
      · simp
      · exact (ih h).imp_right fun h => List.mem_cons_of_mem first h

theorem mem_escape (unit : UInt16) : lf ∉ escape unit ∧ (cr ∈ escape unit ↔ cr = unit) := by
  refine @escape_cases (fun unit => lf ∉ escape unit ∧ (cr ∈ escape unit ↔ cr = unit))
    (by decide) (by decide) (by decide) (by decide)
    (fun unit hbackslash hlf hcomma hsemicolon => ?_) unit
  rw [escape_eq hbackslash hlf hcomma hsemicolon, List.mem_singleton, List.mem_singleton]
  exact ⟨Ne.symm hlf, Iff.rfl⟩

/-- The escaped text has no line feed, and the carriage returns of the text. -/
theorem mem_icsText (value : JsString) :
    lf ∉ icsText value ∧ (cr ∈ icsText value ↔ cr ∈ value) := by
  rw [icsText_eq, List.mem_flatMap, List.mem_flatMap]
  constructor
  · rintro ⟨unit, -, h⟩
    exact (mem_escape unit).1 h
  · simp only [(mem_escape _).2, exists_eq_right']

/-! Times. -/

theorem dropMillis_append {before digits rest : List Char} (hbefore : '.' ∉ before)
    (three : digits.length = 3) (numeric : digits.all Char.isDigit) :
    dropMillis (before ++ '.' :: (digits ++ rest)) = before ++ rest := by
  induction before with
  | nil =>
      have take : (digits ++ rest).take 3 = digits := List.take_left' three
      rw [List.nil_append, dropMillis, if_pos, List.drop_left' three, List.nil_append]
      rw [take]
      exact ⟨rfl, three, numeric⟩
  | cons c before ih =>
      rw [List.mem_cons, not_or] at hbefore
      rw [List.cons_append, dropMillis, if_neg fun mark => hbefore.1 mark.1.symm, ih hbefore.2]
      rfl

theorem filter_pad (width n : Nat) :
    (pad width n).filter (fun c => c ≠ '-' ∧ c ≠ ':') = pad width n := by
  rw [List.filter_eq_self]
  intro c hc
  obtain ⟨k, rfl⟩ := exists_digitChar_of_mem_pad hc
  exact @forall_digitChar (fun c => decide (c ≠ '-' ∧ c ≠ ':') = true) (by decide) k

theorem mem_yearText {year : Int} {c : Char} (h : c ∈ yearText year) :
    c = '-' ∨ c = '+' ∨ ∃ k, c = Nat.digitChar k := by
  unfold yearText at h
  split at h
  · exact Or.inr (Or.inr (exists_digitChar_of_mem_pad h))
  · rcases List.mem_cons.mp h with rfl | h
    · split
      · exact Or.inl rfl
      · exact Or.inr (Or.inl rfl)
    · exact Or.inr (Or.inr (exists_digitChar_of_mem_pad h))

theorem filter_yearText (year : Int) :
    (yearText year).filter (fun c => c ≠ '-' ∧ c ≠ ':') = (yearText year).filter (· ≠ '-') := by
  refine List.filter_congr fun c hc => ?_
  have colonless : c ≠ ':' := by
    rcases mem_yearText hc with rfl | rfl | ⟨k, rfl⟩
    · decide
    · decide
    · exact @forall_digitChar (· ≠ ':') (by decide) k
  simp [colonless]

/-- What `utcStamp` makes of the text before it drops the milliseconds. -/
theorem filter_toISOString (instant : Int) : ∃ clock,
    basicTime instant = clock ++ ['Z'] ∧
      (toISOString (instant / 1000)).filter (fun c => c ≠ '-' ∧ c ≠ ':') =
        clock ++ '.' :: (pad 3 (instant / 1000 % 1000).toNat ++ ['Z']) := by
  have date : Civil.ofOrdinal (instant / 1000 / 86400000 + 719163) = utcDate instant := by
    unfold utcDate
    congr 1
    omega
  have hour : instant / 1000 / 3600000 = instant / 3600000000 := by omega
  have minute : instant / 1000 / 60000 = instant / 60000000 := by omega
  have second : instant / 1000 / 1000 = instant / 1000000 := by omega
  refine ⟨_, rfl, ?_⟩
  simp only [toISOString, isoLayout, text, date, hour, minute, second, List.filter_append,
    List.filter_cons, filter_pad, filter_yearText]
  simp

theorem mem_basicTime {instant : Int} {c : Char} (h : c ∈ basicTime instant) :
    c ∈ ['+', 'T', 'Z'] ∨ ∃ k, c = Nat.digitChar k := by
  have digit : ∀ {width n}, c ∈ pad width n → c ∈ ['+', 'T', 'Z'] ∨ ∃ k, c = Nat.digitChar k :=
    fun h => Or.inr (exists_digitChar_of_mem_pad h)
  simp only [basicTime, List.mem_append, List.mem_cons, List.not_mem_nil, or_false] at h
  rcases h with (((((h | h) | h) | h | h) | h) | h) | h
  · obtain ⟨h, unsigned⟩ := List.mem_filter.mp h
    rcases mem_yearText h with rfl | rfl | h
    · exact absurd unsigned (by decide)
    · exact Or.inl (by decide)
    · exact Or.inr h
  · exact digit h
  · exact digit h
  · exact Or.inl (by simp [h])
  · exact digit h
  · exact digit h
  · exact digit h
  · exact Or.inl (by simp [h])

theorem utcStamp_eq (instant : Int) : utcStamp instant = ofChars (basicTime instant) := by
  obtain ⟨clock, hclock, stamp⟩ := filter_toISOString instant
  have numeric : (pad 3 (instant / 1000 % 1000).toNat).all Char.isDigit = true := by
    rw [List.all_eq_true]
    exact fun c hc => isDigit_of_mem_pad (by omega) hc
  have pointless : '.' ∉ clock := by
    intro hmem
    rcases mem_basicTime (hclock ▸ List.mem_append_left ['Z'] hmem) with h | ⟨k, h⟩
    · exact absurd h (by decide)
    · exact @forall_digitChar ('.' ≠ ·) (by decide) k h
  rw [utcStamp, stamp, dropMillis_append pointless (length_pad 3 _) numeric, hclock]

/-! Values that are written as they are. -/

/-- A text without line ends and backslashes. -/
def Plain (text : JsString) : Prop := (cr ∉ text ∧ lf ∉ text) ∧ backslash ∉ text

instance (text : JsString) : Decidable (Plain text) := inferInstanceAs (Decidable (_ ∧ _))

theorem Plain.append {text more : JsString} (h : Plain text) (hmore : Plain more) :
    Plain (text ++ more) := by
  simp only [Plain, List.mem_append, not_or]
  exact ⟨⟨⟨h.1.1, hmore.1.1⟩, h.1.2, hmore.1.2⟩, h.2, hmore.2⟩

theorem plain_ofChars {text : List Char}
    (h : ∀ c ∈ text, c ∈ ['+', 'T', 'Z', '-'] ∨ ∃ k, c = Nat.digitChar k) :
    Plain (ofChars text) := by
  have each : ∀ c ∈ text, c ≠ '\r' ∧ c ≠ '\n' ∧ c ≠ '\\' := by
    intro c hc
    rcases h c hc with h | ⟨k, rfl⟩
    · simp only [List.mem_cons, List.not_mem_nil, or_false] at h
      rcases h with rfl | rfl | rfl | rfl <;> decide
    · exact @forall_digitChar (fun c => c ≠ '\r' ∧ c ≠ '\n' ∧ c ≠ '\\') (by decide) k
  refine ⟨⟨fun hmem => ?_, fun hmem => ?_⟩, fun hmem => ?_⟩
  · exact (each '\r' ((@mem_ofChars '\r' (by decide) _).mp hmem)).1 rfl
  · exact (each '\n' ((@mem_ofChars '\n' (by decide) _).mp hmem)).2.1 rfl
  · exact (each '\\' ((@mem_ofChars '\\' (by decide) _).mp hmem)).2.2 rfl

theorem plain_basicTime (instant : Int) : Plain (ofChars (basicTime instant)) :=
  plain_ofChars fun _ hc => (mem_basicTime hc).imp_left fun h => List.mem_append_left ['-'] h

theorem plain_uuidText (id : UUID) : Plain (ofChars (uuidText id)) := by
  refine plain_ofChars fun c hc => ?_
  have digit : ∀ {width n : Nat}, c ∈ (List.range width).map (fun i =>
      Nat.digitChar (n / 16 ^ (width - 1 - i) % 16)) →
      c ∈ ['+', 'T', 'Z', '-'] ∨ ∃ k, c = Nat.digitChar k := by
    intro width n h
    obtain ⟨i, -, h⟩ := List.mem_map.mp h
    exact Or.inr ⟨_, h.symm⟩
  have dash : c = '-' → c ∈ ['+', 'T', 'Z', '-'] ∨ ∃ k, c = Nat.digitChar k :=
    fun h => Or.inl (by simp [h])
  simp only [uuidText, List.mem_append, List.mem_cons] at hc
  rcases hc with (((h | h | h) | h | h) | h | h) | h | h
  all_goals first | exact dash h | exact digit h

theorem plain_number (index : Nat) : Plain (ofChars (Nat.toDigits 10 index)) := by
  refine plain_ofChars fun c hc => Or.inr ?_
  obtain ⟨k, -, h⟩ := exists_digitChar (Nat.isDigit_of_mem_toDigits (by decide) (by decide) hc)
  exact ⟨k, h⟩

theorem plain_id {localeCompare : JsString → JsString → Int} {schedule : SavedSchedule}
    {row : ExportRow} (h : row ∈ scheduleRows localeCompare schedule) : Plain row.id := by
  rcases mem_scheduleRows.mp h with ⟨index, -, rfl⟩ | ⟨index, -, rfl⟩
  · exact Plain.append (by decide) (plain_number index)
  · exact (((by decide : Plain (ofString "task-")).append (plain_uuidText _)).append
      (by decide)).append (plain_number index)

/-! Lines. -/

/-- A line that comes back from folding and joining: it holds no line end and
does not begin with a blank. -/
structure Clean (line : JsString) : Prop where
  ends : cr ∉ line ∧ lf ∉ line
  opens : ∃ unit rest, line = unit :: rest ∧ isBlank unit = false

theorem Clean.append {line value : JsString} (h : Clean line) (hvalue : cr ∉ value ∧ lf ∉ value) :
    Clean (line ++ value) := by
  obtain ⟨ends, unit, rest, rfl, shown⟩ := h
  refine ⟨⟨?_, ?_⟩, unit, rest ++ value, rfl, shown⟩
  · rw [List.mem_append, not_or]
    exact ⟨ends.1, hvalue.1⟩
  · rw [List.mem_append, not_or]
    exact ⟨ends.2, hvalue.2⟩

/-- The file of clean lines is read line by line. -/
theorem readCalendar_joined {logical : List JsString} (nonempty : logical ≠ [])
    (clean : ∀ line ∈ logical, Clean line) :
    readCalendar (crlf.intercalate (logical.map foldIcs) ++ crlf) = logical.map property := by
  have physical : crlf.intercalate (logical.map foldIcs) ++ crlf =
      (logical.flatMap foldPieces).flatMap (· ++ [cr, lf]) := by
    rw [intercalate_append crlf (by simpa using nonempty), List.flatMap_map, List.flatMap_assoc]
    refine congrArg (List.flatMap · logical) (funext fun line => ?_)
    exact intercalate_append crlf (foldPieces_folds line).1.ne_nil
  have endless : ∀ piece ∈ logical.flatMap foldPieces, cr ∉ piece ∧ lf ∉ piece := by
    intro piece hpiece
    obtain ⟨line, hline, hpiece⟩ := List.mem_flatMap.mp hpiece
    obtain ⟨hcr, hlf⟩ := (clean line hline).ends
    have inside := fun unit => @Folds.mem _ _ _ _ (foldPieces_folds line).1 unit piece hpiece
    exact ⟨fun h => (inside cr h).elim (by decide) hcr,
      fun h => (inside lf h).elim (by decide) hlf⟩
  have opens : ∀ line ∈ logical, ∃ unit rest,
      (foldPieces line).head? = some (unit :: rest) ∧ isBlank unit = false := by
    intro line hline
    obtain ⟨unit, rest, rfl, shown⟩ := (clean line hline).opens
    obtain ⟨⟨first, bodies, hpieces, hline⟩, filled⟩ := foldPieces_folds (unit :: rest)
    rw [hpieces, List.forall_mem_cons] at filled
    obtain ⟨x, body, rfl⟩ := List.exists_cons_of_ne_nil (filled (List.cons_ne_nil _ _)).1
    rw [List.cons_append, List.cons.injEq] at hline
    exact ⟨x, body, by rw [hpieces, List.head?_cons], hline.1 ▸ shown⟩
  rw [readCalendar, physical, lines_flatMap (by decide) endless,
    unfold_flatMap (by decide) (fun line _ => (foldPieces_folds line).1) opens]

theorem property_append {name : JsString} (h : colon ∉ name) (value : JsString) :
    property (name ++ colon :: value) =
      (name, if name ∈ textProperties then unescape value else value) := by
  have first : (name ++ colon :: value).takeWhile (· ≠ colon) = name := by
    rw [List.takeWhile_append_of_pos fun unit hunit => ?_, List.takeWhile_cons_of_neg (by simp),
      List.append_nil]
    exact decide_eq_true fun same => h (same ▸ hunit)
  unfold property
  dsimp only
  rw [first]
  simp

theorem property_text {name value line : JsString} (hline : line = name ++ colon :: value)
    (hname : colon ∉ name) (text : name ∈ textProperties) :
    property line = (name, unescape value) := by
  rw [hline, property_append hname, if_pos text]

theorem property_value {name value line : JsString} (hline : line = name ++ colon :: value)
    (hname : colon ∉ name) (other : name ∉ textProperties) : property line = (name, value) := by
  rw [hline, property_append hname, if_neg other]

section
variable {schedule : SavedSchedule} {row : ExportRow}

/-- The `UID` of an event. -/
theorem plain_uid (plain : Plain row.id) :
    Plain (ofChars (uuidText schedule.id) ++ (ofString "-" ++ (row.id ++
      ofString "@smartplanner"))) :=
  (plain_uuidText _).append (.append (by decide) (plain.append (by decide)))

theorem property_icsEvent (plain : Plain row.id) :
    (icsEvent schedule row).map property = event schedule row := by
  have opening : property (ofString "BEGIN:VEVENT") = (ofString "BEGIN", ofString "VEVENT") :=
    property_value rfl (by decide) (by decide)
  have uid : ∀ value, Plain value →
      property (ofString "UID:" ++ value) = (ofString "UID", value) := by
    intro value hvalue
    have read : property (ofString "UID:" ++ value) = (ofString "UID", unescape value) :=
      property_text rfl (by decide) (by decide)
    rw [read, unescape_eq hvalue.2]
  have stamp : ∀ value, property (ofString "DTSTAMP:" ++ value) = (ofString "DTSTAMP", value) :=
    fun value => property_value rfl (by decide) (by decide)
  have start : ∀ value, property (ofString "DTSTART:" ++ value) = (ofString "DTSTART", value) :=
    fun value => property_value rfl (by decide) (by decide)
  have stop : ∀ value, property (ofString "DTEND:" ++ value) = (ofString "DTEND", value) :=
    fun value => property_value rfl (by decide) (by decide)
  have summary : property (ofString "SUMMARY:" ++ icsText row.title) =
      (ofString "SUMMARY", row.title) := by
    have read : property (ofString "SUMMARY:" ++ icsText row.title) =
        (ofString "SUMMARY", unescape (icsText row.title)) :=
      property_text rfl (by decide) (by decide)
    rw [read, unescape_icsText]
  have closing : property (ofString "END:VEVENT") = (ofString "END", ofString "VEVENT") :=
    property_value rfl (by decide) (by decide)
  simp only [icsEvent, event, List.map_cons, List.map_nil, List.append_assoc, utcStamp_eq, opening,
    uid _ (plain_uid plain), stamp, start, stop, summary, closing]

theorem clean_icsEvent (plain : Plain row.id) (title : cr ∉ row.title) :
    ∀ line ∈ icsEvent schedule row, Clean line := by
  have time : ∀ instant, cr ∉ utcStamp instant ∧ lf ∉ utcStamp instant := by
    intro instant
    rw [utcStamp_eq]
    exact (plain_basicTime instant).1
  have summary : cr ∉ icsText row.title ∧ lf ∉ icsText row.title :=
    ⟨fun h => title ((mem_icsText row.title).2.mp h), (mem_icsText row.title).1⟩
  simp only [icsEvent, List.append_assoc, List.forall_mem_cons, List.not_mem_nil, false_implies,
    implies_true, and_true]
  refine ⟨⟨by decide, _, _, rfl, by decide⟩, .append ⟨by decide, _, _, rfl, by decide⟩ ?_,
    .append ⟨by decide, _, _, rfl, by decide⟩ (time _),
    .append ⟨by decide, _, _, rfl, by decide⟩ (time _),
    .append ⟨by decide, _, _, rfl, by decide⟩ (time _),
    .append ⟨by decide, _, _, rfl, by decide⟩ summary, ⟨by decide, _, _, rfl, by decide⟩⟩
  exact (plain_uid plain).1

end

/-! The file. -/

section
variable {localeCompare : JsString → JsString → Int} {schedule : SavedSchedule}

theorem property_icsHeader : icsHeader.map property =
    [(ofString "BEGIN", ofString "VCALENDAR"), (ofString "VERSION", ofString "2.0"),
      (ofString "PRODID", ofString "-//SmartPlanner//Schedule//EN"),
      (ofString "CALSCALE", ofString "GREGORIAN")] := by decide

theorem property_footer :
    property (ofString "END:VCALENDAR") = (ofString "END", ofString "VCALENDAR") := by decide

/-- Where no title has a carriage return, the rows come back. -/
theorem readCalendar_scheduleIcs
    (titles : ∀ row ∈ scheduleRows localeCompare schedule, cr ∉ row.title) :
    readCalendar (scheduleIcs localeCompare schedule) =
      calendar schedule (scheduleRows localeCompare schedule) := by
  have header : ∀ line ∈ icsHeader, Clean line := by
    simp only [icsHeader, List.map_cons, List.map_nil, List.forall_mem_cons, List.not_mem_nil,
      false_implies, implies_true, and_true]
    exact ⟨⟨by decide, _, _, rfl, by decide⟩, ⟨by decide, _, _, rfl, by decide⟩,
      ⟨by decide, _, _, rfl, by decide⟩, ⟨by decide, _, _, rfl, by decide⟩⟩
  have footer : Clean (ofString "END:VCALENDAR") := ⟨by decide, _, _, rfl, by decide⟩
  have events : ∀ line ∈ (scheduleRows localeCompare schedule).flatMap (icsEvent schedule),
      Clean line := by
    intro line hline
    obtain ⟨row, hrow, hline⟩ := List.mem_flatMap.mp hline
    exact clean_icsEvent (plain_id hrow) (titles row hrow) line hline
  have read : ((scheduleRows localeCompare schedule).flatMap (icsEvent schedule)).map property =
      (scheduleRows localeCompare schedule).flatMap (event schedule) := by
    rw [List.map_flatMap]
    exact List.flatMap_congr fun row hrow => property_icsEvent (plain_id hrow)
  unfold scheduleIcs
  dsimp only
  rw [readCalendar_joined (by simp)]
  · rw [List.map_append, List.map_append, read, List.map_singleton, property_icsHeader,
      property_footer]
    rfl
  · rw [List.forall_mem_append, List.forall_mem_append, List.forall_mem_singleton]
    exact ⟨⟨header, events⟩, footer⟩

/-- No value that is read holds a carriage return. -/
theorem not_mem_readCalendar {file name value : JsString} (h : (name, value) ∈ readCalendar file) :
    cr ∉ value := by
  intro hmem
  obtain ⟨line, hline, hproperty⟩ := List.mem_map.mp h
  have inside : cr ∈ line := by
    have part : ∀ {n : Nat}, cr ∈ line.drop n → cr ∈ line := fun h => List.mem_of_mem_drop h
    have hvalue : (property line).2 = value := by rw [hproperty]
    rw [← hvalue, property] at hmem
    dsimp only at hmem
    split at hmem
    · exact part ((mem_of_mem_unescape hmem).resolve_left (by decide))
    · exact part hmem
  obtain ⟨physical, hphysical, hcr⟩ := List.mem_flatten.mp (subset_of_mem_unfold hline inside)
  exact (not_mem_linesFrom false hphysical).1 hcr

theorem cr_mem_ofString (title : String) : cr ∈ ofString title ↔ '\r' ∈ title.toList :=
  @mem_ofChars '\r' (by decide) title.toList

/-- The titles of the rows are those of the events and of the tasks. -/
theorem titles_iff : (∀ row ∈ scheduleRows localeCompare schedule, cr ∉ row.title) ↔
    (∀ event ∈ schedule.state.content.fixedEvents, '\r' ∉ event.title.toList) ∧
      ∀ block ∈ schedule.state.content.blocks,
        '\r' ∉ (taskTitle schedule block.taskId).toList := by
  simp only [← cr_mem_ofString]
  constructor
  · intro h
    constructor
    · intro event hevent
      obtain ⟨index, hindex, rfl⟩ := List.mem_iff_getElem.mp hevent
      exact h _ (mem_scheduleRows.mpr (Or.inl ⟨index, hindex, rfl⟩))
    · intro block hblock
      obtain ⟨index, hindex, rfl⟩ := List.mem_iff_getElem.mp hblock
      exact h _ (mem_scheduleRows.mpr (Or.inr ⟨index, hindex, rfl⟩))
  · rintro ⟨events, blocks⟩ row hrow
    rcases mem_scheduleRows.mp hrow with ⟨index, hindex, rfl⟩ | ⟨index, hindex, rfl⟩
    · exact events _ (List.getElem_mem hindex)
    · exact blocks _ (List.getElem_mem hindex)

/-- A row whose title has a carriage return does not come back. -/
theorem cr_not_mem_of_readCalendar
    (h : readCalendar (scheduleIcs localeCompare schedule) =
      calendar schedule (scheduleRows localeCompare schedule)) :
    ∀ row ∈ scheduleRows localeCompare schedule, cr ∉ row.title := by
  intro row hrow
  have summary : (ofString "SUMMARY", row.title) ∈
      calendar schedule (scheduleRows localeCompare schedule) := by
    refine List.mem_append_left _ (List.mem_append_right _ ?_)
    exact List.mem_flatMap.mpr ⟨row, hrow, by simp [event]⟩
  rw [← h] at summary
  exact not_mem_readCalendar summary

/-- Reading the exported calendar gives the header, one event for each row with
its id, times and title, and the footer, exactly when no title has a carriage
return. -/
theorem scheduleIcs_readBack_iff (localeCompare : JsString → JsString → Int)
    (schedule : SavedSchedule) :
    readCalendar (scheduleIcs localeCompare schedule) =
        calendar schedule (scheduleRows localeCompare schedule) ↔
      (∀ event ∈ schedule.state.content.fixedEvents, '\r' ∉ event.title.toList) ∧
        ∀ block ∈ schedule.state.content.blocks,
          '\r' ∉ (taskTitle schedule block.taskId).toList := by
  rw [← @titles_iff localeCompare]
  exact ⟨cr_not_mem_of_readCalendar, readCalendar_scheduleIcs⟩

end

/-! A title that adds a line. -/

theorem guestTitle_valid : TitleValid "review\rATTENDEE:guest" := by decide

theorem guestWindow_valid : WindowValid 1792659600000000 1792663200000000 := by decide

/-- A fixed event with a carriage return in its title. -/
def guestEvent : FixedEvent where
  start := 1792659600000000
  stop := 1792663200000000
  windowValid := guestWindow_valid
  title := "review\rATTENDEE:guest"
  titleValid := guestTitle_valid

def guestContent : ScheduleContent where
  startDate := 739911
  days := 1
  taskIds := []
  availability := []
  fixedEvents := [guestEvent]
  planningValid := by decide
  blocks := []
  blocksValid := by decide

def guestSchedule : SavedSchedule where
  id := 1
  version := 1
  historyRevision := 1
  timezone := "UTC"
  horizon := guestEvent.toTimeWindow
  state :=
    { title := "week"
      content := guestContent
      taskVersions := []
      preferenceVersion := 1
      candidateValid := by decide
      taskTitles := []
      unscheduled := []
      ignoredTaskIds := []
      warnings := [] }
  sources := ⟨false, [], [], false⟩
  canUndo := false
  canRedo := false
  createdAt := 1792659600000000
  updatedAt := 1792659600000000

/-- The reader finds a guest that no row has. -/
theorem scheduleIcs_guest :
    (ofString "ATTENDEE", ofString "guest") ∈
        readCalendar (scheduleIcs (fun _ _ => 0) guestSchedule) ∧
      readCalendar (scheduleIcs (fun _ _ => 0) guestSchedule) ≠
        calendar guestSchedule (scheduleRows (fun _ _ => 0) guestSchedule) := by
  have rows : scheduleRows (fun _ _ => 0) guestSchedule = [fixedRow 0 guestEvent] :=
    List.mergeSort_singleton _
  have guest : (ofString "ATTENDEE", ofString "guest") ∈
      readCalendar (scheduleIcs (fun _ _ => 0) guestSchedule) := by
    unfold scheduleIcs
    rw [rows]
    decide +kernel
  refine ⟨guest, fun h => ?_⟩
  rw [h, rows] at guest
  revert guest
  decide +kernel

end SmartPlanner.PlannerExport
