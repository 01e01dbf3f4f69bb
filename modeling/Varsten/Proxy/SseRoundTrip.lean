import Varsten.Python.JsonText
import Varsten.Proxy.SseChunking
import Varsten.Proxy.BatchUsage
import Varsten.Proxy.Providers.OpenAI

/-!
# Reading framed objects back

Objects written compactly and without ASCII escapes, one to a data line or to a line
of a file. `splitlines` also breaks at the separators that JSON strings may hold
unescaped; an object that holds one is read back by no reader.
-/

namespace Varsten.Proxy.SseRoundTrip

open Python (Json Py PyError)
open Python.Utf8 (Bytes Text encode decode decode_encode)
open Python.Text
open Python.JsonText
open SseDecoder (lineData dataField)
open SseChunking
open SseCuts (CleanCuts)

variable {loads : Text → Option Json} {num : Numerals} {c : Char}

/-! ## Separators -/

instance : DecidablePred IsSeparator := fun _ => inferInstanceAs (Decidable (_ ∨ _ ∨ _))

theorem separator_break (h : IsSeparator c) : isLineBreak c = true := by
  rcases h with rfl | rfl | rfl <;> decide

theorem separator_beyond (h : IsSeparator c) : 0x80 ≤ c.toNat := by
  rcases h with rfl | rfl | rfl <;> decide

theorem separator_not_structural (h : IsSeparator c) : isStructural c = false := by
  rcases h with rfl | rfl | rfl <;> decide

theorem scan_separator {m m' : Mode} {p b : Text} (hc : IsSeparator c)
    (h : scan m (p ++ c :: b) = some m') : scan m p = some .inside ∧ scan .inside b = some m' := by
  obtain ⟨m₁, h₁, h⟩ := scan_append_some h
  rw [scan_cons, Option.bind_eq_some_iff] at h
  obtain ⟨m₂, h₂, h⟩ := h
  have hs := separator_not_structural hc
  have hq : c ≠ '"' := by
    rintro rfl
    exact absurd (separator_beyond hc) (by decide)
  have hb : c ≠ '\\' := by
    rintro rfl
    exact absurd (separator_beyond hc) (by decide)
  cases m₁ with
  | outside => simp [step, hq, hs] at h₂
  | inside =>
    obtain rfl := step_inside_plain hq hb h₂
    exact ⟨h₁, h⟩
  | escaped =>
    have he : isEscape c = false := by rcases hc with rfl | rfl | rfl <;> decide
    simp [step, he] at h₂

theorem split_first {t : Text} (h : ∃ c ∈ t, IsSeparator c) :
    ∃ p c b, t = p ++ c :: b ∧ IsSeparator c ∧ ∀ x ∈ p, ¬ IsSeparator x := by
  induction t with
  | nil =>
    obtain ⟨c, hc, -⟩ := h
    cases hc
  | cons d t ih =>
    by_cases hd : IsSeparator d
    · exact ⟨[], d, t, rfl, hd, fun x hx => absurd hx List.not_mem_nil⟩
    · obtain ⟨c, hc, hs⟩ := h
      obtain ⟨p, c, b, rfl, hs, hp⟩ := ih ⟨c, (List.mem_cons.1 hc).resolve_left
        (fun heq => hd (heq ▸ hs)), hs⟩
      exact ⟨d :: p, c, b, rfl, hs, List.forall_mem_cons.2 ⟨hd, hp⟩⟩

theorem not_break {t : Text} (hp : ∀ c ∈ t, 0x20 ≤ c.toNat) (h : ∀ c ∈ t, ¬ IsSeparator c) :
    ∀ c ∈ t, isLineBreak c = false := fun c hc => by
  rw [Bool.eq_false_iff, ne_eq, isLineBreak_of_printable (.inl (hp c hc))]
  exact h c hc

theorem splitlines_first {p b : Text} (hp : ∀ x ∈ p, isLineBreak x = false) (hc : IsSeparator c) :
    splitlines (p ++ c :: b) = p :: splitlines b := by
  have hcr : ¬ (c = '\r' ∧ b.head? = some '\n') := by
    rintro ⟨rfl, -⟩
    exact absurd (separator_beyond hc) (by decide)
  have hbreak := splitlines_break (separator_break hc) hcr
  rcases List.eq_nil_or_concat p with rfl | ⟨q, d, hq⟩
  · exact hbreak
  · have hne : p ≠ [] := by simp [hq]
    rw [splitlines_append (fun x hx => hp x (List.mem_of_mem_getLast? hx)) hne (.inl hbreak),
      splitlines_of_no_break hne hp]
    rfl

theorem lines_fragments {t : Text} (hp : ∀ c ∈ t, 0x20 ≤ c.toNat) (h : Fragment t) :
    ∀ l ∈ splitlines t, Fragment l := by
  induction hn : t.length using Nat.strong_induction_on generalizing t with
  | _ n ih =>
    by_cases hs : ∃ c ∈ t, IsSeparator c
    · obtain ⟨p, c, b, rfl, hc, hfirst⟩ := split_first hs
      obtain ⟨m, hm⟩ := h
      obtain ⟨hin, hb⟩ := scan_separator hc hm
      have hbreak := not_break (fun x hx => hp x (List.mem_append_left _ hx)) hfirst
      rw [splitlines_first hbreak hc, List.forall_mem_cons]
      refine ⟨⟨_, hin⟩, ih b.length ?_ (fun x hx => hp x ?_) ⟨m, hb⟩ rfl⟩
      · rw [← hn, List.length_append, List.length_cons]
        omega
      · exact List.mem_append_right _ (List.mem_cons_of_mem _ hx)
    · rcases eq_or_ne t [] with rfl | hne
      · exact fun l hl => absurd hl List.not_mem_nil
      · rw [splitlines_of_no_break hne (not_break hp fun c hc hsep => hs ⟨c, hc, hsep⟩)]
        exact List.forall_mem_singleton.2 h

/-! ## Stripping -/

theorem dropWhile_blanks (s : Text) :
    ∃ a, s = a ++ s.dropWhile isSpace ∧ ∀ c ∈ a, isSpace c = true :=
  ⟨s.takeWhile isSpace, (List.takeWhile_append_dropWhile).symm, fun _ hc =>
    List.mem_takeWhile_imp hc⟩

theorem rstrip_blanks (s : Text) : ∃ b, s = rstrip s ++ b ∧ ∀ c ∈ b, isSpace c = true := by
  obtain ⟨a, ha, hs⟩ := dropWhile_blanks s.reverse
  refine ⟨a.reverse, ?_, fun c hc => hs c (List.mem_reverse.1 hc)⟩
  rw [rstrip, ← List.reverse_append, ← ha, List.reverse_reverse]

theorem blank_plain (h : isSpace c = true) : c ≠ '"' ∧ c ≠ '\\' :=
  ⟨by rintro rfl; exact absurd h (by decide), by rintro rfl; exact absurd h (by decide)⟩

theorem strip_fragment {t : Text} (h : Fragment t) : Fragment (strip t) := by
  obtain ⟨a, ha, hs⟩ := dropWhile_blanks t
  obtain ⟨b, hb, -⟩ := rstrip_blanks (t.dropWhile isSpace)
  rw [ha] at h
  have hd := Fragment.drop (fun c hc => blank_plain (hs c hc)) h
  rw [hb] at hd
  exact hd.of_append

theorem lineData_fragment {l d : Text} (h : Fragment l) (hd : lineData l = some d) :
    Fragment d := by
  have hs := strip_fragment h
  simp only [lineData] at hd
  split_ifs at hd with hp
  obtain rfl := Option.some.inj hd
  obtain ⟨rest, hr⟩ := List.isPrefixOf_iff_prefix.1 hp
  rw [← hr] at hs ⊢
  rw [List.drop_left]
  exact strip_fragment (Fragment.drop (by simp [dataField]) hs)

theorem lineData_line (q : Text) :
    lineData (dataField ++ ' ' :: '{' :: q) = some ('{' :: rstrip (rstrip q)) := by
  have h : rstrip (' ' :: '{' :: q) = [' ', '{'] ++ rstrip q :=
    rstrip_append (x := [' ', '{']) (c := '{') rfl (by decide) q
  have h' : strip ([' ', '{'] ++ rstrip q) = rstrip (['{'] ++ rstrip q) := rfl
  rw [lineData_dataField, h, h', rstrip_append (x := ['{']) (c := '{') rfl (by decide)]
  rfl

theorem rstrip_of_last {q : Text} (h : q.getLast? = some c) (hc : isSpace c = false) :
    rstrip q = q := by
  have happ := rstrip_append h hc []
  have hnil : rstrip [] = [] := rfl
  rwa [List.append_nil, hnil, List.append_nil] at happ

theorem scan_rstrip {m : Mode} {p q : Text} (h : scan m (p ++ q) = some .inside) :
    scan m (p ++ rstrip q) = some .inside := by
  obtain ⟨b, hb, hs⟩ := rstrip_blanks q
  rw [hb, ← List.append_assoc] at h
  obtain ⟨m₁, h₁, h⟩ := scan_append_some h
  rwa [scan_blanks hs h] at h₁

/-! ## Frames -/

abbrev Fields := List (String × Json)

def objectText (num : Numerals) (fields : Fields) : Text := dumps num (.obj fields)

def dataLine (num : Numerals) (fields : Fields) : Text :=
  dataField ++ ' ' :: objectText num fields

theorem objectText_written (num : Numerals) (fields : Fields) :
    Written (objectText num fields) (chars (.obj fields)) := written_dumps num _

theorem objectText_eq (num : Numerals) (fields : Fields) :
    objectText num fields = '{' :: (dumpsFields num fields ++ ['}']) := by
  rw [objectText, dumps]

theorem objectText_last (num : Numerals) (fields : Fields) :
    (dumpsFields num fields ++ ['}']).getLast? = some '}' := by simp

theorem dataLine_ok (num : Numerals) (fields : Fields) : LineOk (dataLine num fields) where
  printable c hc := by
    rcases List.mem_append.1 hc with hc | hc
    · have hall : ∀ c ∈ dataField, 0x20 ≤ c.toNat := by simp [dataField]
      exact .inl (hall c hc)
    · rcases List.mem_cons.1 hc with rfl | hc
      · exact .inl (by decide)
      · exact .inl ((objectText_written num fields).printable c hc)
  last := by
    refine ⟨'}', ?_, by decide⟩
    rw [dataLine, objectText_eq, List.getLast?_append, List.getLast?_cons_cons,
      ← List.cons_append, List.getLast?_append]
    rfl
  ascii := .inr (List.prefix_append _ _)

def frame (num : Numerals) (fields : Fields) : Event where
  newline := .lf
  lines := [dataLine num fields]
  lines_ok := List.forall_mem_singleton.2 (dataLine_ok num fields)
  has_data := ⟨_, List.mem_singleton_self _, List.prefix_append _ _⟩

def frames (num : Numerals) (objs : List Fields) : List Event := objs.map (frame num)

/-- No raw separator in the text of an object. -/
def Plain (num : Numerals) (j : Json) : Prop := ∀ c ∈ dumps num j, ¬ IsSeparator c

instance : DecidablePred (Plain num) := fun j => inferInstanceAs (Decidable (∀ c ∈ dumps num j, _))

theorem plain_of_structural {v : Json} (h : ∀ c ∈ chars v, isStructural c = true) :
    Plain num v := by
  intro c hc hs
  have hm := ((written_dumps num v).chars c (separator_beyond hs)).1 hc
  exact absurd (h c hm) (by rw [separator_not_structural hs]; decide)

theorem dataLine_plain {fields : Fields} (h : Plain num (.obj fields)) :
    splitlines (dataLine num fields) = [dataLine num fields] := by
  have hok := dataLine_ok num fields
  have hbreak := not_break (objectText_written num fields).printable h
  apply splitlines_of_no_break hok.ne_nil
  intro x hx
  rcases List.mem_append.1 hx with hx | hx
  · exact dataField_no_break x hx
  · rcases List.mem_cons.1 hx with rfl | hx
    · decide
    · exact hbreak x hx

/-- The first line of a broken text ends inside a string, and the others start inside strings. -/
theorem text_broken {fields : Fields} (h : ¬ Plain num (.obj fields)) :
    ∃ q c b, objectText num fields = '{' :: q ++ c :: b ∧ IsSeparator c ∧
      (∀ x ∈ '{' :: q, isLineBreak x = false) ∧ scan .outside ('{' :: q) = some .inside ∧
      ∀ l ∈ splitlines b, Fragment l := by
  have hw := objectText_written num fields
  obtain ⟨p, c, b, heq, hc, hfirst⟩ := split_first (t := objectText num fields) (by
    simpa [Plain, objectText] using h)
  have hprintable : ∀ x ∈ p ++ c :: b, 0x20 ≤ x.toNat := heq ▸ hw.printable
  obtain ⟨hin, hb⟩ := scan_separator hc (heq ▸ hw.scan)
  obtain ⟨q, rfl⟩ : ∃ q, p = '{' :: q := by
    rw [objectText_eq] at heq
    cases p with
    | nil =>
      obtain rfl := (List.cons.inj heq).1
      exact absurd (separator_beyond hc) (by decide)
    | cons d q => exact ⟨q, by rw [(List.cons.inj heq).1]⟩
  refine ⟨q, c, b, heq, hc, ?_, hin, lines_fragments (fun x hx => hprintable x ?_) ⟨_, hb⟩⟩
  · exact not_break (fun x hx => hprintable x (List.mem_append_left _ hx)) hfirst
  · exact List.mem_append_right _ (List.mem_cons_of_mem _ hx)

theorem objectText_broken {fields : Fields} (h : ¬ Plain num (.obj fields)) :
    ∃ q ls, splitlines (objectText num fields) = ('{' :: q) :: ls ∧
      scan .outside ('{' :: q) = some .inside ∧ ∀ l ∈ ls, Fragment l := by
  obtain ⟨q, c, b, heq, hc, hbreak, hscan, hfrag⟩ := text_broken h
  exact ⟨q, splitlines b, by rw [heq, splitlines_first hbreak hc], hscan, hfrag⟩

theorem dataLine_broken {fields : Fields} (h : ¬ Plain num (.obj fields)) :
    ∃ q ls, splitlines (dataLine num fields) = (dataField ++ ' ' :: '{' :: q) :: ls ∧
      scan .outside ('{' :: q) = some .inside ∧ ∀ l ∈ ls, Fragment l := by
  obtain ⟨q, c, b, heq, hc, hbreak, hscan, hfrag⟩ := text_broken h
  have happ : dataLine num fields = (dataField ++ ' ' :: '{' :: q) ++ c :: b := by
    rw [dataLine, heq]
    simp
  refine ⟨q, splitlines b, ?_, hscan, hfrag⟩
  rw [happ, splitlines_first _ hc]
  intro x hx
  rcases List.mem_append.1 hx with hx | hx
  · exact dataField_no_break x hx
  · rcases List.mem_cons.1 hx with rfl | hx
    · decide
    · exact hbreak x hx

/-! ## Line by line -/

/-- What `parse_sse_events` makes of one line. -/
def lineEvent (loads : Text → Option Json) (rawLine : Text) : Option Json :=
  (lineData rawLine).bind fun data =>
    if data = [] ∨ data = SseDecoder.doneMarker then none else loads data

theorem parseSseEvents_eq (loads : Text → Option Json) (raw : Text) :
    Providers.OpenAI.parseSseEvents loads raw = (splitlines raw).filterMap (lineEvent loads) := by
  rw [Providers.OpenAI.parseSseEvents]
  congr 1
  funext l
  simp only [lineEvent, lineData]
  split_ifs <;> simp_all

theorem firstData_eq (num : Numerals) (fields : Fields) :
    lineData (dataLine num fields) = some (objectText num fields) := by
  have hlast := rstrip_of_last (objectText_last num fields) (by decide)
  rw [dataLine, objectText_eq, lineData_line, hlast, hlast]

theorem firstData_broken {q : Text} (h : scan .outside ('{' :: q) = some .inside) :
    ∃ r, lineData (dataField ++ ' ' :: '{' :: q) = some ('{' :: r) ∧
      scan .outside ('{' :: r) = some .inside :=
  ⟨_, lineData_line q, scan_rstrip (p := ['{']) (scan_rstrip (p := ['{']) h)⟩

theorem unclosed_not_read (hl : IsReader loads) {t : Text} (h : scan .outside t = some .inside) :
    loads t = none := by
  cases hv : loads t with
  | none => rfl
  | some v => exact absurd (h.symm.trans (hl.scans hv)) (by decide)

theorem brace_kept (r : Text) : ¬ ('{' :: r = [] ∨ '{' :: r = SseDecoder.doneMarker) := by
  simp [SseDecoder.doneMarker]

theorem lineEvents_plain {fields : Fields} (h : Plain num (.obj fields))
    (hload : loads (objectText num fields) = some (.obj fields)) :
    (splitlines (dataLine num fields)).filterMap (lineEvent loads) = [.obj fields] := by
  have hkeep := brace_kept (dumpsFields num fields ++ ['}'])
  rw [← objectText_eq] at hkeep
  have hline : lineEvent loads (dataLine num fields) = some (.obj fields) := by
    rw [lineEvent, firstData_eq, Option.bind_some, if_neg hkeep, hload]
  rw [dataLine_plain h, List.filterMap_cons_some hline, List.filterMap_nil]

theorem lineEvents_broken (hl : IsReader loads) {fields : Fields}
    (h : ¬ Plain num (.obj fields)) :
    ∀ v ∈ (splitlines (dataLine num fields)).filterMap (lineEvent loads), Plain num v := by
  obtain ⟨q, ls, hlines, hscan, hfrag⟩ := dataLine_broken h
  obtain ⟨r, hr, hrscan⟩ := firstData_broken hscan
  have hfirst : lineEvent loads (dataField ++ ' ' :: '{' :: q) = none := by
    rw [lineEvent, hr, Option.bind_some, if_neg (brace_kept r), unclosed_not_read hl hrscan]
  rw [hlines, List.filterMap_cons_none hfirst]
  intro v hv
  obtain ⟨l, hlmem, hlv⟩ := List.mem_filterMap.1 hv
  obtain ⟨d, hd, hdv⟩ := Option.bind_eq_some_iff.1 hlv
  split_ifs at hdv
  exact plain_of_structural ((lineData_fragment (hfrag l hlmem) hd).chars hl hdv)

/-! ## Block by block -/

/-- What a decoder that keeps some data lines reads from the lines of a block. -/
def blockValue (loads : Text → Option Json) (keep : Text → Bool) (lines : List Text) :
    Option Json :=
  let dataLines := (lines.filterMap lineData).filter keep
  if dataLines = [] then none else loads (join ['\n'] dataLines)

theorem join_cons (d : Text) (ds : List Text) :
    join ['\n'] (d :: ds) = d ∨ ∃ r, join ['\n'] (d :: ds) = d ++ '\n' :: r := by
  cases ds with
  | nil => exact .inl (by simp [join])
  | cons e es => exact .inr ⟨join ['\n'] (e :: es), by simp [join, List.intercalate]⟩

theorem blockValue_plain {keep : Text → Bool} (hkeep : ∀ r, keep ('{' :: r) = true)
    {fields : Fields} (h : Plain num (.obj fields))
    (hload : loads (objectText num fields) = some (.obj fields)) :
    blockValue loads keep (splitlines (dataLine num fields)) = some (.obj fields) := by
  have hk : keep (objectText num fields) = true := by
    rw [objectText_eq]
    exact hkeep _
  simp [blockValue, dataLine_plain h, firstData_eq, hk, join, hload]

theorem blockValue_broken (hl : IsReader loads) {keep : Text → Bool}
    (hkeep : ∀ r, keep ('{' :: r) = true) {fields : Fields} (h : ¬ Plain num (.obj fields)) :
    blockValue loads keep (splitlines (dataLine num fields)) = none := by
  obtain ⟨q, ls, hlines, hscan, -⟩ := dataLine_broken h
  obtain ⟨r, hr, hrscan⟩ := firstData_broken hscan
  rw [blockValue, hlines, List.filterMap_cons_some hr, List.filter_cons_of_pos (hkeep r)]
  rw [if_neg (List.cons_ne_nil _ _)]
  rcases join_cons ('{' :: r) ((ls.filterMap lineData).filter keep) with hj | ⟨x, hj⟩
  · rw [hj]
    exact unclosed_not_read hl hrscan
  · rw [hj]
    cases hv : loads ('{' :: r ++ '\n' :: x) with
    | none => rfl
    | some v =>
      have hs := hl.scans hv
      rw [scan_append, hrscan, Option.bind_some, scan_cons] at hs
      exact absurd hs (by simp [step])

/-! ## The decoders -/

def keepAll (_ : Text) : Bool := true

def keepOpen (d : Text) : Bool := d ≠ SseDecoder.doneMarker

def keepText (d : Text) : Bool := ¬ (d = [] ∨ d = SseDecoder.doneMarker)

theorem keepOpen_brace (r : Text) : keepOpen ('{' :: r) = true := by
  simp [keepOpen, SseDecoder.doneMarker]

theorem keepText_brace (r : Text) : keepText ('{' :: r) = true := by
  simp [keepText, SseDecoder.doneMarker]

theorem anthropic_value (loads : Text → Option Json) (b : Text) :
    ((SseDecoder.anthropicBlock b).bind fun e => loads e.2) =
      blockValue loads keepAll (splitlines b) := by
  obtain ⟨event, h⟩ := anthropicBlock_eq b
  have hall : (splitlines b).filterMap lineData =
      ((splitlines b).filterMap lineData).filter keepAll :=
    (List.filter_eq_self.2 fun _ _ => rfl).symm
  rw [h, blockValue, ← hall]
  split_ifs <;> rfl

theorem foldl_geminiLine (lines : List Text) (acc : List Text) :
    lines.foldl SseDecoder.geminiLine acc =
      acc ++ (lines.filterMap lineData).filter keepOpen := by
  induction lines generalizing acc with
  | nil => simp
  | cons l ls ih =>
    rw [List.foldl_cons, ih]
    by_cases hd : startsWith (strip l) dataField = true
    · by_cases hk : strip ((strip l).drop dataField.length) = SseDecoder.doneMarker
      · simp [SseDecoder.geminiLine, lineData, hd, hk, keepOpen]
      · simp [SseDecoder.geminiLine, lineData, hd, hk, keepOpen]
    · simp [SseDecoder.geminiLine, lineData, hd]

theorem gemini_value (loads : Text → Option Json) (b : Text) :
    (SseDecoder.geminiBlock b).bind loads = blockValue loads keepOpen (splitlines b) := by
  have h := foldl_geminiLine (splitlines b) []
  rw [List.nil_append] at h
  rw [SseDecoder.geminiBlock, blockValue, h]
  split_ifs <;> rfl

theorem foldl_sseDataLine (lines : List Text) (acc : List Text) :
    lines.foldl SseDecoder.sseDataLine acc =
      acc ++ (lines.filterMap lineData).filter keepText := by
  induction lines generalizing acc with
  | nil => simp
  | cons l ls ih =>
    rw [List.foldl_cons, ih]
    by_cases hd : startsWith (strip l) dataField = true
    · by_cases hk : strip ((strip l).drop dataField.length) = [] ∨
          strip ((strip l).drop dataField.length) = SseDecoder.doneMarker
      · simp [SseDecoder.sseDataLine, lineData, hd, hk, keepText]
      · simp [SseDecoder.sseDataLine, lineData, hd, hk, keepText]
    · simp [SseDecoder.sseDataLine, lineData, hd]

theorem openai_value (loads : Text → Option Json) (b : Text) :
    SseDecoder.openaiBlock loads b =
      (blockValue loads keepText (splitlines b)).filter Json.isDict := by
  have h := foldl_sseDataLine (splitlines b) []
  rw [List.nil_append] at h
  rw [SseDecoder.openaiBlock, SseDecoder.sseDataLines, blockValue, h]
  split_ifs
  · rfl
  · cases loads (join ['\n'] (((splitlines b).filterMap lineData).filter keepText)) with
    | none => rfl
    | some v => cases v <;> rfl

/-! ## All frames -/

def objects (objs : List Fields) : List Json := objs.map Json.obj

/-- Every object is read back by itself, and none holds a raw separator. -/
def Readable (loads : Text → Option Json) (num : Numerals) (objs : List Fields) : Prop :=
  ∀ fields ∈ objs, loads (objectText num fields) = some (.obj fields)

def AllPlain (num : Numerals) (objs : List Fields) : Prop := ∀ j ∈ objects objs, Plain num j

/-- A reader that reads plain objects as themselves and other objects as plain ones. -/
theorem flatMap_eq_iff {objs : List Fields} {f : Fields → List Json}
    (hgood : ∀ fields ∈ objs, Plain num (.obj fields) → f fields = [.obj fields])
    (hbad : ∀ fields ∈ objs, ¬ Plain num (.obj fields) → ∀ v ∈ f fields, Plain num v) :
    objs.flatMap f = objects objs ↔ AllPlain num objs := by
  constructor
  · intro h v hv
    rw [← h] at hv
    obtain ⟨fields, hf, hv⟩ := List.mem_flatMap.1 hv
    by_cases hp : Plain num (.obj fields)
    · rw [hgood fields hf hp, List.mem_singleton] at hv
      rwa [hv]
    · exact hbad fields hf hp v hv
  · intro h
    have hmap : ∀ fields ∈ objs, f fields = [.obj fields] := fun fields hf =>
      hgood fields hf (h _ (List.mem_map_of_mem hf))
    rw [List.flatMap_congr hmap, objects, List.map_eq_flatMap]

theorem frame_text (num : Numerals) (fields : Fields) :
    (frame num fields).text = dataLine num fields ++ ['\n', '\n'] := by
  simp [frame, Event.text, linesText, Newline.text]

theorem splitlines_frames (num : Numerals) (objs : List Fields) :
    splitlines (streamText (frames num objs)) =
      objs.flatMap fun fields => splitlines (dataLine num fields) ++ [[]] := by
  induction objs with
  | nil => rfl
  | cons fields objs ih =>
    have htext : streamText (frames num (fields :: objs)) =
        dataLine num fields ++ '\n' :: '\n' :: streamText (frames num objs) := by
      simp [frames, streamText, frame_text]
    have hbreak : splitlines ('\n' :: '\n' :: streamText (frames num objs)) =
        [] :: [] :: splitlines (streamText (frames num objs)) := by
      rw [splitlines_newline, splitlines_newline]
    have hok := dataLine_ok num fields
    rw [htext, splitlines_append ?_ hok.ne_nil (.inl hbreak), ih, List.flatMap_cons,
      List.append_assoc]
    · rfl
    · intro x hx
      obtain ⟨y, hy, hspace⟩ := hok.last
      obtain rfl := Option.some.inj (hy.symm.trans hx)
      exact isLineBreak_isSpace hspace

theorem sse_events_iff (hl : IsReader loads) {objs : List Fields} (h : Readable loads num objs) :
    Providers.OpenAI.parseSseEvents loads (streamText (frames num objs)) = objects objs ↔
      AllPlain num objs := by
  have hblank : lineEvent loads [] = none := rfl
  rw [parseSseEvents_eq, splitlines_frames, List.filterMap_flatMap]
  apply flatMap_eq_iff
  · intro fields hf hp
    rw [List.filterMap_append, lineEvents_plain hp (h fields hf), List.filterMap_cons_none hblank]
    rfl
  · intro fields _ hp v hv
    rw [List.filterMap_append, List.filterMap_cons_none hblank, List.filterMap_nil,
      List.append_nil] at hv
    exact lineEvents_broken hl hp v hv

theorem block_values {α : Type} {g : Text → Option α} {f : List Text → Option α}
    (hg : ∀ b, g b = f (splitlines b)) {objs : List Fields} {cs : List Bytes}
    (hf : cs.flatten = streamBytes (frames num objs)) (hc : CleanCuts [] cs) :
    (SseDecoder.blocks (SseDecoder.text cs)).filterMap g =
      objs.filterMap fun fields => f (splitlines (dataLine num fields)) := by
  have hblocks := (stream_reads (frames num objs) hf []).clean hc
  have hlines : ∀ fields, eventLines (frame num fields) = splitlines (dataLine num fields) :=
    fun fields => by simp [eventLines, frame]
  rw [funext hg]
  have hmap := congrArg (List.filterMap f) hblocks
  rw [List.filterMap_map, List.filterMap_map, frames, List.filterMap_map] at hmap
  refine hmap.trans ?_
  congr 1
  funext fields
  simp only [Function.comp_apply, hlines]

theorem filterMap_eq_flatMap {α β : Type} (f : α → Option β) (xs : List α) :
    xs.filterMap f = xs.flatMap fun x => (f x).toList := by
  induction xs with
  | nil => rfl
  | cons x xs ih =>
    cases h : f x with
    | none => rw [List.filterMap_cons_none h, List.flatMap_cons, h, ih]; rfl
    | some y => rw [List.filterMap_cons_some h, List.flatMap_cons, h, ih]; rfl

theorem block_values_iff (hl : IsReader loads) {keep : Text → Bool}
    (hkeep : ∀ r, keep ('{' :: r) = true) {objs : List Fields} (h : Readable loads num objs) :
    (objs.filterMap fun fields => blockValue loads keep (splitlines (dataLine num fields))) =
      objects objs ↔ AllPlain num objs := by
  rw [filterMap_eq_flatMap]
  apply flatMap_eq_iff
  · intro fields hf hp
    rw [blockValue_plain hkeep hp (h fields hf)]
    rfl
  · intro fields _ hp v hv
    rw [blockValue_broken hl hkeep hp] at hv
    cases hv

theorem isDict_values (hl : IsReader loads) {objs : List Fields} (h : Readable loads num objs) :
    (objs.filterMap fun fields =>
      (blockValue loads keepText (splitlines (dataLine num fields))).filter Json.isDict) =
      objs.filterMap fun fields => blockValue loads keepText (splitlines (dataLine num fields)) := by
  apply List.filterMap_congr
  intro fields hf
  by_cases hp : Plain num (.obj fields)
  · rw [blockValue_plain keepText_brace hp (h fields hf)]
    rfl
  · rw [blockValue_broken hl keepText_brace hp]
    rfl

/-- The objects of the three incremental decoders. -/
def anthropicObjects (loads : Text → Option Json) (chunks : List Bytes) : List Json :=
  (SseDecoder.anthropicEvents chunks).filterMap fun e => loads e.2

def geminiObjects (loads : Text → Option Json) (chunks : List Bytes) : List Json :=
  (SseDecoder.geminiEvents chunks).filterMap loads

theorem incremental_iff (hl : IsReader loads) {objs : List Fields} (h : Readable loads num objs)
    {cs : List Bytes} (hf : cs.flatten = streamBytes (frames num objs)) (hc : CleanCuts [] cs) :
    (anthropicObjects loads cs = objects objs ↔ AllPlain num objs) ∧
      (geminiObjects loads cs = objects objs ↔ AllPlain num objs) ∧
      (SseDecoder.openaiEvents loads cs = objects objs ↔ AllPlain num objs) := by
  refine ⟨?_, ?_, ?_⟩
  · rw [anthropicObjects, SseDecoder.anthropicEvents_eq, List.filterMap_filterMap,
      block_values (anthropic_value loads) hf hc]
    exact block_values_iff hl (fun _ => rfl) h
  · rw [geminiObjects, SseDecoder.geminiEvents_eq, List.filterMap_filterMap,
      block_values (gemini_value loads) hf hc]
    exact block_values_iff hl keepOpen_brace h
  · rw [SseDecoder.openaiEvents_eq, block_values (f := fun ls =>
      (blockValue loads keepText ls).filter Json.isDict) (openai_value loads) hf hc,
      isDict_values hl h]
    exact block_values_iff hl keepText_brace h

/-! ## Rows of a file -/

open BatchUsage

def fileText (num : Numerals) (rows : List Fields) : Text :=
  rows.flatMap fun fields => objectText num fields ++ ['\n']

/-- A row that names a model and counts its tokens. -/
def IsRow (fields : Fields) : Prop :=
  ∃ response body usage model input output, Json.item "response" fields = some (.obj response) ∧
    Json.item "body" response = some (.obj body) ∧ Json.item "usage" body = some (.obj usage) ∧
    Json.item "model" body = some (.str model) ∧ model ≠ "" ∧
    Json.item "prompt_tokens" usage = some (.int input) ∧
    Json.item "completion_tokens" usage = some (.int output)

/-- Every row is counted, and nothing else. -/
def CountsAll (loads : Text → Option Json) (num : Numerals) (rows : List Fields) : Prop :=
  ∃ byModel, parseOutputUsage loads (encode (fileText num rows)) = .ok (byModel, rows.length) ∧
    (objects rows).foldlM addRow ([], 0) = .ok (byModel, rows.length)

theorem int_orZero (n : ℤ) : ((Json.int n).orElse (.int 0)).toInt = .ok n := by
  by_cases h : n = 0
  · subst h
    rfl
  · simp [Json.orElse, Json.truthy, h, Json.toInt]

theorem addRow_counts {fields : Fields} (h : IsRow fields) (acc : ByModel × ℕ) :
    ∃ byModel, addRow acc (.obj fields) = .ok (byModel, acc.2 + 1) := by
  obtain ⟨response, body, usage, model, input, output, hr, hb, hu, hm, hne, hi, ho⟩ := h
  have ht : (Json.str model).truthy = true := (Json.truthy_str model).2 hne
  refine ⟨setTally (.str model) ⟨(tallyAt (.str model) acc.1).input + input,
    (tallyAt (.str model) acc.1).output + output⟩ acc.1, ?_⟩
  simp only [addRow, Json.get, hr, hb, hu, hm, hi, ho, Option.getD_some, Py.bind_ok,
    Python.Json.obj_orElse_empty, ht, Bool.not_true, Bool.false_eq_true, if_false, Json.hashKey,
    int_orZero]
  rfl

theorem addRow_junk {v : Json} (hv : ∀ c ∈ chars v, isStructural c = true)
    {acc acc' : ByModel × ℕ} (h : addRow acc v = .ok acc') : acc' = acc := by
  cases v with
  | obj fields =>
    have hnone : Json.item "response" fields = none := by
      by_contra hsome
      obtain ⟨w, hw⟩ := Option.ne_none_iff_exists'.1 hsome
      have hmem : 'p' ∈ charsFields fields := by
        clear hv h hsome
        induction fields with
        | nil => cases hw
        | cons f fields ih =>
          rw [charsFields, List.mem_append, List.mem_append]
          rw [Json.item] at hw
          split_ifs at hw with hk
          · exact .inl (.inl (by rw [hk]; decide))
          · exact .inr (ih hw)
      exact absurd (hv 'p' hmem) (by decide)
    have hget : addRow acc (.obj fields) = .ok acc := by
      simp only [addRow, Json.get, hnone, Option.getD_none, Py.bind_ok]
      rfl
    exact (Except.ok.inj (hget.symm.trans h)).symm
  | _ => cases h

theorem foldlM_junk {vs : List Json} (hv : ∀ v ∈ vs, ∀ c ∈ chars v, isStructural c = true)
    {acc acc' : ByModel × ℕ} (h : vs.foldlM addRow acc = .ok acc') : acc' = acc := by
  induction vs generalizing acc with
  | nil => exact (Except.ok.inj h).symm
  | cons v vs ih =>
    rw [List.forall_mem_cons] at hv
    rw [List.foldlM_cons] at h
    obtain ⟨acc₁, h₁, h⟩ := Py.bind_eq_ok.1 h
    rw [ih hv.2 h, addRow_junk hv.1 h₁]

theorem splitlines_file (num : Numerals) (rows : List Fields) :
    splitlines (fileText num rows) =
      rows.flatMap fun fields => splitlines (objectText num fields) := by
  induction rows with
  | nil => rfl
  | cons fields rows ih =>
    have htext : fileText num (fields :: rows) =
        objectText num fields ++ '\n' :: fileText num rows := by
      simp [fileText]
    rw [htext, splitlines_append ?_ ?_
      (.inl (splitlines_newline (fileText num rows))), ih, List.flatMap_cons]
    · intro x hx
      rw [objectText_eq, ← List.cons_append, List.getLast?_append] at hx
      obtain rfl := Option.some.inj hx
      decide
    · rw [objectText_eq]
      exact List.cons_ne_nil _ _

def rowValues (loads : Text → Option Json) (num : Numerals) (fields : Fields) : List Json :=
  (splitlines (objectText num fields)).filterMap (parseLine loads)

theorem parseOutputUsage_eq (loads : Text → Option Json) (num : Numerals) (rows : List Fields) :
    parseOutputUsage loads (encode (fileText num rows)) =
      (rows.flatMap (rowValues loads num)).foldlM addRow ([], 0) := by
  rw [parseOutputUsage, decode_encode, splitlines_file, List.filterMap_flatMap]
  rfl

theorem strip_brace (q : Text) : strip ('{' :: q) = '{' :: rstrip q :=
  rstrip_append (x := ['{']) (c := '{') rfl (by decide) q

theorem rowValues_plain {fields : Fields} (h : Plain num (.obj fields))
    (hload : loads (objectText num fields) = some (.obj fields)) :
    rowValues loads num fields = [.obj fields] := by
  have hne : objectText num fields ≠ [] := by
    rw [objectText_eq]
    exact List.cons_ne_nil _ _
  have hstrip : strip (objectText num fields) = objectText num fields := by
    rw [objectText_eq, strip_brace, rstrip_of_last (objectText_last num fields) (by decide)]
  have hline : parseLine loads (objectText num fields) = some (.obj fields) := by
    rw [parseLine, hstrip, if_neg hne, hload]
  rw [rowValues, splitlines_of_no_break hne (not_break (objectText_written num fields).printable h),
    List.filterMap_cons_some hline, List.filterMap_nil]

theorem rowValues_broken (hl : IsReader loads) {fields : Fields}
    (h : ¬ Plain num (.obj fields)) :
    ∀ v ∈ rowValues loads num fields, ∀ c ∈ chars v, isStructural c = true := by
  obtain ⟨q, ls, hlines, hscan, hfrag⟩ := objectText_broken h
  have hfirst : parseLine loads ('{' :: q) = none := by
    rw [parseLine, strip_brace, if_neg (List.cons_ne_nil _ _)]
    exact unclosed_not_read hl (scan_rstrip (p := ['{']) hscan)
  rw [rowValues, hlines, List.filterMap_cons_none hfirst]
  intro v hv
  obtain ⟨l, hlmem, hlv⟩ := List.mem_filterMap.1 hv
  rw [parseLine] at hlv
  split_ifs at hlv
  exact (strip_fragment (hfrag l hlmem)).chars hl hlv

theorem rows_counted (hl : IsReader loads) {rows : List Fields} (h : Readable loads num rows)
    (hrows : ∀ fields ∈ rows, IsRow fields) {acc acc' : ByModel × ℕ}
    (hrun : (rows.flatMap (rowValues loads num)).foldlM addRow acc = .ok acc') :
    acc'.2 = acc.2 + (objects rows).countP (Plain num) := by
  induction rows generalizing acc with
  | nil =>
    obtain rfl := Except.ok.inj hrun
    rfl
  | cons fields rows ih =>
    rw [Readable, List.forall_mem_cons] at h
    rw [List.forall_mem_cons] at hrows
    rw [List.flatMap_cons, List.foldlM_append] at hrun
    obtain ⟨acc₁, h₁, hrun⟩ := Py.bind_eq_ok.1 hrun
    rw [ih h.2 hrows.2 hrun, objects, objects, List.map_cons, List.countP_cons]
    by_cases hp : Plain num (.obj fields)
    · obtain ⟨byModel, hadd⟩ := addRow_counts hrows.1 acc
      rw [rowValues_plain hp h.1, List.foldlM_cons, hadd] at h₁
      obtain rfl := Except.ok.inj h₁
      simp only [hp, decide_true, if_true]
      omega
    · rw [foldlM_junk (rowValues_broken hl hp) h₁]
      simp [hp]

theorem rows_total {rows : List Fields} (hrows : ∀ fields ∈ rows, IsRow fields)
    (acc : ByModel × ℕ) :
    ∃ byModel, (objects rows).foldlM addRow acc = .ok (byModel, acc.2 + rows.length) := by
  induction rows generalizing acc with
  | nil => exact ⟨acc.1, rfl⟩
  | cons fields rows ih =>
    rw [List.forall_mem_cons] at hrows
    obtain ⟨byModel, hadd⟩ := addRow_counts hrows.1 acc
    obtain ⟨byModel', hrest⟩ := ih hrows.2 (byModel, acc.2 + 1)
    refine ⟨byModel', ?_⟩
    rw [objects, List.map_cons, List.foldlM_cons, hadd, Py.bind_ok, ← objects, hrest]
    congr 2
    simp only [List.length_cons]
    omega

theorem counts_iff (hl : IsReader loads) {rows : List Fields} (h : Readable loads num rows)
    (hrows : ∀ fields ∈ rows, IsRow fields) : CountsAll loads num rows ↔ AllPlain num rows := by
  constructor
  · intro hc
    obtain ⟨byModel, hparse, -⟩ := hc
    rw [parseOutputUsage_eq] at hparse
    have hcount := rows_counted hl h hrows hparse
    rw [Nat.zero_add] at hcount
    have hlen : (objects rows).length = rows.length := List.length_map _
    have hall := List.countP_eq_length.1 (hcount.symm.trans hlen.symm)
    exact fun j hj => of_decide_eq_true (hall j hj)
  · intro hp
    obtain ⟨byModel, hrun⟩ := rows_total hrows ([], 0)
    rw [Nat.zero_add] at hrun
    refine ⟨byModel, ?_, hrun⟩
    rw [parseOutputUsage_eq, ← hrun, objects, List.map_eq_flatMap]
    congr 1
    exact List.flatMap_congr fun fields hf =>
      rowValues_plain (hp _ (List.mem_map_of_mem hf)) (h fields hf)

/-- Framed objects, fed in clean chunks, and rows of a file are all read back exactly when no
text holds a raw separator. -/
theorem read_back_iff (hl : IsReader loads) {objs : List Fields} (h : Readable loads num objs) :
    (Providers.OpenAI.parseSseEvents loads (streamText (frames num objs)) = objects objs ↔
      AllPlain num objs) ∧
    (∀ chunks, chunks.flatten = streamBytes (frames num objs) → CleanCuts [] chunks →
      (anthropicObjects loads chunks = objects objs ↔ AllPlain num objs) ∧
        (geminiObjects loads chunks = objects objs ↔ AllPlain num objs) ∧
        (SseDecoder.openaiEvents loads chunks = objects objs ↔ AllPlain num objs)) ∧
    ((∀ fields ∈ objs, IsRow fields) → (CountsAll loads num objs ↔ AllPlain num objs)) :=
  ⟨sse_events_iff hl h, fun _ hf hc => incremental_iff hl h hf hc, counts_iff hl h⟩

/-! ## One object -/

def noFloats : Numerals where
  text _ := []
  text_ok _ := rfl

/-- `json.loads` on the text of one object. -/
def readsOne (fields : Fields) (t : Text) : Option Json :=
  if t = objectText noFloats fields then some (.obj fields) else none

theorem readsOne_isReader {fields : Fields}
    (h : quoted .outside (objectText noFloats fields) = chars (.obj fields)) :
    IsReader (readsOne fields) := by
  refine ⟨fun hv => ?_, fun hv c hc => ?_⟩
  · rw [readsOne] at hv
    split_ifs at hv with ht
    rw [ht]
    exact (objectText_written noFloats fields).scan
  · rw [readsOne] at hv
    split_ifs at hv with ht
    rw [← Option.some.inj hv] at hc
    rw [ht]
    exact .inl (h ▸ hc)

theorem readsOne_readable (fields : Fields) : Readable (readsOne fields) noFloats [fields] :=
  List.forall_mem_singleton.2 (if_pos rfl)

/-- `{"a":"é"}`. -/
def accentObject : Fields := [("a", .str "é")]

theorem accent_read : Providers.OpenAI.parseSseEvents (readsOne accentObject)
    (streamText (frames noFloats [accentObject])) = objects [accentObject] ↔
      AllPlain noFloats [accentObject] :=
  (read_back_iff (readsOne_isReader rfl) (readsOne_readable accentObject)).1

def separatorObject : Fields := [("a", .str "\u2028")]

theorem separator_lost :
    ¬ ∀ (loads : Text → Option Json) (num : Numerals) (objs : List Fields), IsReader loads →
      Readable loads num objs →
        Providers.OpenAI.parseSseEvents loads (streamText (frames num objs)) = objects objs := by
  intro h
  have hl : IsReader (readsOne separatorObject) := readsOne_isReader rfl
  have hr := readsOne_readable separatorObject
  have hplain := (sse_events_iff hl hr).1 (h _ _ _ hl hr)
  exact hplain _ (List.mem_singleton_self _) '\u2028' (by decide) (.inr (.inl rfl))

end Varsten.Proxy.SseRoundTrip
