import Varsten.Proxy.SseCuts

/-!
# Chunking an event stream

An upstream stream is a list of events, each a few lines and a blank line. Fed
with any chunks whose cuts are clean the three decoders yield the events of the
whole stream; an unclean cut loses an event or changes the data of one, unless
the data holds a raw line separator that hides it.
-/

namespace Varsten.Proxy.SseChunking

open Python (Json)
open Python.Utf8
open Python.Text
open SseDecoder
open SseCuts

inductive Newline where
  | lf
  | crlf
deriving DecidableEq

def Newline.text : Newline → Text
  | .lf => ['\n']
  | .crlf => ['\r', '\n']

def Printable (t : Text) : Prop := ∀ c ∈ t, 0x20 ≤ c.toNat ∨ c = '\t'

instance : DecidablePred Printable := fun t =>
  List.decidableBAll (fun c : Char => 0x20 ≤ c.toNat ∨ c = '\t') t

/-- Printable up to tabs, not ending in a space, and ASCII unless it is a data line. -/
structure LineOk (l : Text) : Prop where
  printable : Printable l
  last : ∃ c, l.getLast? = some c ∧ isSpace c = false
  ascii : (∀ c ∈ l, c.toNat < 0x80) ∨ dataField <+: l

structure Event where
  newline : Newline
  lines : List Text
  lines_ok : ∀ l ∈ lines, LineOk l
  has_data : ∃ l ∈ lines, dataField <+: l

def linesText (nl : Newline) (ls : List Text) : Text := ls.flatMap fun l => l ++ nl.text

def Event.text (e : Event) : Text := linesText e.newline e.lines ++ e.newline.text

def streamText (es : List Event) : Text := es.flatMap Event.text

def streamBytes (es : List Event) : Bytes := encode (streamText es)

/-- A line separator that JSON strings may hold unescaped. -/
def IsSeparator (c : Char) : Prop := c = '\u0085' ∨ c = '\u2028' ∨ c = '\u2029'

def Agree (loads : Text → Option Json) (xs ys : List Bytes) : Prop :=
  anthropicEvents xs = anthropicEvents ys ∧ geminiEvents xs = geminiEvents ys ∧
    openaiEvents loads xs = openaiEvents loads ys

/-! ## Lines -/

theorem dataField_ascii : ∀ c ∈ dataField, c.toNat < 0x80 := fun c hc =>
  of_decide_eq_true (List.all_eq_true.1
    (by decide : dataField.all (fun c => decide (c.toNat < 0x80)) = true) c hc)

theorem dataField_no_break : ∀ c ∈ dataField, isLineBreak c = false := fun c hc =>
  of_decide_eq_true (List.all_eq_true.1
    (by decide : dataField.all (fun c => decide (isLineBreak c = false)) = true) c hc)

theorem isLineBreak_of_printable {c : Char} (h : 0x20 ≤ c.toNat ∨ c = '\t') :
    isLineBreak c = true ↔ IsSeparator c := by
  constructor
  · intro hb
    simp only [isLineBreak, decide_eq_true_eq, List.mem_cons, List.not_mem_nil, or_false] at hb
    rcases hb with rfl | rfl | rfl | rfl | rfl | rfl | rfl | rfl | rfl | rfl <;>
      first | exact absurd h (by decide) | simp [IsSeparator]
  · rintro (rfl | rfl | rfl) <;> decide

theorem isLineBreak_isSpace {c : Char} (h : isSpace c = false) : isLineBreak c = false := by
  by_contra hb
  simp only [Bool.not_eq_false, isLineBreak, decide_eq_true_eq, List.mem_cons, List.not_mem_nil,
    or_false] at hb
  rcases hb with rfl | rfl | rfl | rfl | rfl | rfl | rfl | rfl | rfl | rfl <;>
    (revert h; decide)

theorem Printable.no_newline {t : Text} (h : Printable t) : '\n' ∉ t := fun hm =>
  absurd (h _ hm) (by decide)

theorem LineOk.no_newline {l : Text} (h : LineOk l) : '\n' ∉ l := h.printable.no_newline

theorem LineOk.ne_nil {l : Text} (h : LineOk l) : l ≠ [] := by
  obtain ⟨c, hc, -⟩ := h.last
  rintro rfl
  simp at hc

theorem LineOk.last_byte {l : Text} (h : LineOk l) :
    ∃ b, (encode l).getLast? = some b ∧ b ≠ 10 ∧ b ≠ 13 := by
  have hne : encode l ≠ [] := by
    cases l with
    | nil => exact absurd rfl h.ne_nil
    | cons c l => simp [encode_cons]
  obtain ⟨b, hb⟩ := Option.isSome_iff_exists.1 (by simpa using hne : (encode l).getLast?.isSome)
  have hm := List.mem_of_mem_getLast? hb
  refine ⟨b, hb, ?_, ?_⟩
  · rintro rfl
    obtain ⟨c, hc, hcb⟩ := mem_encode hm (by decide)
    have hp := h.printable c hc
    obtain rfl : c = '\n' := Char.ext (UInt32.toNat_inj.1 hcb)
    exact absurd hp (by decide)
  · rintro rfl
    obtain ⟨c, hc, hcb⟩ := mem_encode hm (by decide)
    have hp := h.printable c hc
    obtain rfl : c = '\r' := Char.ext (UInt32.toNat_inj.1 hcb)
    exact absurd hp (by decide)

/-- The `U+FFFD` in the data of one line. -/
def lineCount (t : Text) : ℕ := ((lineData t).getD []).count replacement

theorem lineCount_le (t : Text) : lineCount t ≤ t.count replacement := by
  unfold lineCount lineData
  simp only
  split_ifs with h
  · have h1 := count_strip_le replacement ((strip t).drop dataField.length)
    have h2 := (List.drop_sublist dataField.length (strip t)).count_le replacement
    have h3 := count_strip_le replacement t
    simp only [Option.getD_some]
    omega
  · simp

theorem lineData_dataField (t : Text) :
    lineData (dataField ++ t) = some (strip (rstrip t)) := by
  have hs : strip (dataField ++ t) = dataField ++ rstrip t :=
    strip_append (c := ':') (d := 'd') rfl (by decide) rfl (by decide) t
  have hp : startsWith (dataField ++ rstrip t) dataField = true :=
    List.isPrefixOf_iff_prefix.2 (List.prefix_append _ _)
  simp only [lineData, hs, hp, if_true, List.drop_left]

theorem lineCount_dataField (t : Text) : lineCount (dataField ++ t) = t.count replacement := by
  have hspace : isSpace replacement = false := by decide
  rw [lineCount, lineData_dataField, Option.getD_some, count_strip hspace, count_rstrip hspace]

theorem LineOk.count {l : Text} (h : LineOk l) {cs : List Bytes} (hf : cs.flatten = encode l)
    (p : Bytes) : l.count replacement ≤ lineCount (SseDecoder.text cs) ∧
      (¬ CleanCuts p cs → l.count replacement < lineCount (SseDecoder.text cs)) ∧
      (dataField <+: l → dataField <+: SseDecoder.text cs) := by
  have hclean := ascii_clean cs h.no_newline
  by_cases hd : dataField <+: l
  · obtain ⟨d, rfl⟩ := hd
    have hn : '\n' ∉ d := fun hm => h.no_newline (List.mem_append_right _ hm)
    rw [encode_append] at hf
    obtain ⟨xs, ys, hxs, hys, ht, hcuts⟩ := cut_at hf (junction_of_no_newline _ hn)
    have hx : CleanCuts p xs := ascii_clean _ (by decide) dataField_ascii hxs p
    have hy := line_reads hn hys (p ++ encode dataField)
    rw [ht, (line_reads (by decide) hxs p).clean hx, lineCount_dataField, List.count_append,
      show dataField.count replacement = 0 by decide, Nat.zero_add, hcuts p]
    exact ⟨hy.count, fun hc => hy.count_lt fun hy' => hc ⟨hx, hy'⟩, fun _ => List.prefix_append _ _⟩
  · have ha := h.ascii.resolve_right hd
    have h0 : l.count replacement = 0 :=
      List.count_eq_zero.2 fun hm => absurd (ha _ hm) (by decide)
    exact ⟨by omega, fun hc => absurd (ascii_clean _ h.no_newline ha hf p) hc,
      fun hd' => absurd hd' hd⟩

/-! ## The lines of one event -/

structure Piece where
  line : Text
  ending : Text

def Piece.Ok (q : Piece) : Prop :=
  Printable q.line ∧ q.line ≠ [] ∧ (∀ c ∈ q.line.getLast?, isLineBreak c = false) ∧
    (q.ending = ['\n'] ∨ q.ending = ['\r', '\n'])

def body (qs : List Piece) : Text := qs.flatMap fun q => q.line ++ q.ending

def block : List Piece → Text
  | [] => []
  | [q] => q.line ++ q.ending.dropLast
  | q :: qs => q.line ++ q.ending ++ block qs

def pieceCount (qs : List Piece) : ℕ := (qs.map fun q => lineCount q.line).sum

def textCount (ls : List Text) : ℕ := (ls.map (List.count replacement)).sum

theorem body_cons (q : Piece) (qs : List Piece) : body (q :: qs) = q.line ++ (q.ending ++ body qs) := by
  simp [body]

theorem block_cons_cons (q q' : Piece) (qs : List Piece) :
    block (q :: q' :: qs) = q.line ++ (q.ending ++ block (q' :: qs)) := by
  rw [← List.append_assoc]
  rfl

theorem body_head {qs : List Piece} (hok : ∀ q ∈ qs, q.Ok) : (body qs).head? ≠ some '\n' := by
  cases qs with
  | nil => simp [body]
  | cons q qs =>
    obtain ⟨hn, hne, -⟩ := hok q (by simp)
    obtain ⟨c, t, ht⟩ := List.exists_cons_of_ne_nil hne
    rw [body_cons, ht]
    rintro hc
    obtain rfl : c = '\n' := by simpa using hc
    exact hn.no_newline (by simp [ht])

theorem splitBlank_ending {e : Text} (h : e = ['\n'] ∨ e = ['\r', '\n'])
    {y : Text} (hy : y.head? ≠ some '\n') :
    splitBlank (e ++ y) = (splitBlank y).modifyHead (e ++ ·) := by
  rcases h with rfl | rfl
  · rw [List.singleton_append, splitBlank_cons (fun hc => hy hc.2)]
    rfl
  · rw [List.cons_append, splitBlank_cons (by simp), List.singleton_append,
      splitBlank_cons (fun hc => hy hc.2), List.modifyHead_modifyHead]
    rfl

theorem splitBlank_body {qs : List Piece} (hok : ∀ q ∈ qs, q.Ok) {y : Text}
    (hy : y.head? ≠ some '\n') :
    splitBlank (body qs ++ y) = (splitBlank y).modifyHead (body qs ++ ·) := by
  induction qs with
  | nil =>
    change splitBlank y = (splitBlank y).modifyHead id
    rw [List.modifyHead_id]
    rfl
  | cons q qs ih =>
    obtain ⟨hn, -, -, he⟩ := hok q (by simp)
    have hok' : ∀ q ∈ qs, q.Ok := fun x hx => hok x (List.mem_cons_of_mem _ hx)
    have hh : (body qs ++ y).head? ≠ some '\n' := by
      rw [List.head?_append]
      have := body_head hok'
      cases hb : (body qs).head? with
      | none => simpa using hy
      | some c => simpa [hb] using this
    rw [body_cons, List.append_assoc, splitBlank_append_of_no_newline _ hn.no_newline, List.append_assoc,
      splitBlank_ending he hh, ih hok', List.modifyHead_modifyHead, List.modifyHead_modifyHead]
    congr 1
    funext z
    simp

theorem splitBlank_block {qs : List Piece} (h : qs ≠ []) (hok : ∀ q ∈ qs, q.Ok) (y : Text) :
    splitBlank (body qs ++ '\n' :: y) = block qs :: splitBlank y := by
  induction qs with
  | nil => exact absurd rfl h
  | cons q qs ih =>
    obtain ⟨hn, -, -, he⟩ := hok q (by simp)
    have hok' : ∀ q ∈ qs, q.Ok := fun x hx => hok x (List.mem_cons_of_mem _ hx)
    rw [body_cons, List.append_assoc, splitBlank_append_of_no_newline _ hn.no_newline, List.append_assoc]
    cases qs with
    | nil =>
      rcases he with he | he
      · simp [body, block, he, splitBlank_sep]
      · have hs : splitBlank ('\r' :: '\n' :: '\n' :: y) = ['\r'] :: splitBlank y := by
          rw [splitBlank_cons (by simp), splitBlank_sep]
          rfl
        simp [body, block, he, hs]
    | cons q' qs =>
      have hh : (body (q' :: qs) ++ '\n' :: y).head? ≠ some '\n' := by
        have := body_head hok'
        obtain ⟨-, hne, -⟩ := hok' q' (by simp)
        obtain ⟨c, t, ht⟩ := List.exists_cons_of_ne_nil hne
        rw [body_cons, ht] at this ⊢
        simpa using this
      rw [splitBlank_ending he hh, ih (by simp) hok', List.modifyHead_cons, List.modifyHead_cons,
        block_cons_cons]

theorem splitlines_block {qs : List Piece} (hok : ∀ q ∈ qs, q.Ok) :
    splitlines (block qs) = qs.flatMap fun q => splitlines q.line := by
  induction qs with
  | nil => rfl
  | cons q qs ih =>
    obtain ⟨hn, hne, hlast, he⟩ := hok q (by simp)
    have hok' : ∀ q ∈ qs, q.Ok := fun x hx => hok x (List.mem_cons_of_mem _ hx)
    cases qs with
    | nil =>
      rcases he with he | he
      · simp [block, he]
      · have hs : splitlines ['\r'] = [[]] := by decide
        simp [block, he, splitlines_append hlast hne (Or.inl hs)]
    | cons q' qs =>
      have hs : splitlines (q.ending ++ block (q' :: qs)) = [] :: splitlines (block (q' :: qs)) := by
        rcases he with he | he
        · rw [he, List.singleton_append, splitlines_newline]
        · rw [he, List.cons_append, List.singleton_append, splitlines_crlf]
      rw [block_cons_cons, splitlines_append hlast hne (Or.inl hs), ih hok']
      rfl

theorem newline_cuts {nl : Newline} {cs : List Bytes} (hf : cs.flatten = encode nl.text)
    {p : Bytes} {b : UInt8} (hp : p.getLast? = some b) (hb : b ≠ 13) :
    SseDecoder.text cs = ['\n'] ∧ CleanCuts p cs ∨
      SseDecoder.text cs = ['\r', '\n'] ∧ (CleanCuts p cs ↔ b ≠ 10) := by
  cases nl with
  | lf =>
    obtain ⟨ht, hc⟩ := byte_cuts (b := 10) (by decide) hf p
    refine Or.inl ⟨ht, hc.2 ⟨by simp [AtBoundary, IsTail], ?_⟩⟩
    rintro ⟨⟨t, rfl⟩, -⟩
    exact hb (by simpa using hp.symm)
  | crlf =>
    rcases crlf_cuts hf p with h | ⟨ht, hc⟩
    · exact Or.inl h
    · exact Or.inr ⟨ht, by rw [hc, hp]; simp⟩

theorem newline_last (nl : Newline) (u : Bytes) : (u ++ encode nl.text).getLast? = some 10 := by
  cases nl with
  | lf => exact List.getLast?_concat
  | crlf =>
    change (u ++ [13, 10]).getLast? = some 10
    simp

structure ReadsLines (p : Bytes) (ls : List Text) (cs : List Bytes) (qs : List Piece) : Prop where
  text_eq : SseDecoder.text cs = body qs
  ok : ∀ q ∈ qs, q.Ok
  mem : ∀ q ∈ qs, ∀ c ∈ q.line, (∃ l ∈ ls, c ∈ l) ∨ c = replacement
  clean : CleanCuts p cs → qs.map Piece.line = ls
  count : textCount ls ≤ pieceCount qs
  count_lt : ¬ CleanCuts p cs → textCount ls < pieceCount qs
  data : (∃ l ∈ ls, dataField <+: l) → ∃ q ∈ qs, dataField <+: q.line

theorem linesText_cons (nl : Newline) (l : Text) (ls : List Text) :
    linesText nl (l :: ls) = l ++ (nl.text ++ linesText nl ls) := by
  simp [linesText]

theorem linesText_head (nl : Newline) {ls : List Text} (hok : ∀ l ∈ ls, LineOk l) (t : Text)
    (ht : ls = [] → t.head? ≠ some '\n') : (linesText nl ls ++ t).head? ≠ some '\n' := by
  cases ls with
  | nil => exact ht rfl
  | cons l ls =>
    have hl := hok l (by simp)
    obtain ⟨c, l', rfl⟩ := List.exists_cons_of_ne_nil hl.ne_nil
    intro hc
    obtain rfl : c = '\n' := by simpa [linesText] using hc
    exact hl.no_newline (by simp)

theorem junction_of_head (u : Bytes) {t : Text} (ht : t.head? ≠ some '\n') :
    Junction u (encode t) := by
  cases t with
  | nil => exact junction_of_no_newline u (by simp)
  | cons c t =>
    have hc : c ≠ '\n' := by simpa using ht
    refine ⟨atBoundary_encode _, fun h => absurd rfl (head_utf8 hc (b := 10) ?_)⟩
    obtain ⟨d, ts, hd, -⟩ := encodeChar_shape c
    rw [encode_cons, hd] at h
    rw [hd]
    simpa using h

theorem junction_of_last {u : Bytes} {b : UInt8} (hu : u.getLast? = some b) (hb : b ≠ 13)
    (t : Text) : Junction u (encode t) :=
  ⟨atBoundary_encode t, fun _ => ⟨b, hu, hb⟩⟩

theorem lines_cuts {nl : Newline} {ls : List Text} (hok : ∀ l ∈ ls, LineOk l) {cs : List Bytes}
    (hf : cs.flatten = encode (linesText nl ls)) (p : Bytes) :
    ∃ qs, ReadsLines p ls cs qs := by
  induction ls generalizing cs p with
  | nil =>
    refine ⟨[], text_of_flatten_nil hf, by simp, by simp, fun _ => rfl, le_rfl, fun hc => ?_, by simp⟩
    exact absurd (cleanCuts_of_plain (by simp [hf, linesText, encode]) p) hc
  | cons l ls ih =>
    have hl := hok l (by simp)
    have hok' : ∀ l ∈ ls, LineOk l := fun x hx => hok x (List.mem_cons_of_mem _ hx)
    obtain ⟨b, hb, hb10, hb13⟩ := hl.last_byte
    rw [linesText_cons, encode_append] at hf
    obtain ⟨xs, ys, hxs, hys, ht, hcuts⟩ := cut_at hf (junction_of_last hb hb13 _)
    rw [encode_append] at hys
    have hrest : (linesText nl ls).head? ≠ some '\n' := by
      simpa using linesText_head nl hok' [] (by simp)
    obtain ⟨es, zs, hes, hzs, hty, hcutsy⟩ := cut_at hys (junction_of_head _ hrest)
    obtain ⟨qs, hq⟩ := ih hok' hzs (p ++ encode l ++ encode nl.text)
    have hlast : (p ++ encode l).getLast? = some b := List.mem_getLast?_append_of_mem_getLast? hb
    have hend : CleanCuts (p ++ encode l) es ∧
        (SseDecoder.text es = ['\n'] ∨ SseDecoder.text es = ['\r', '\n']) := by
      rcases newline_cuts hes hlast hb13 with ⟨he, hc⟩ | ⟨he, hc⟩
      · exact ⟨hc, Or.inl he⟩
      · exact ⟨hc.2 hb10, Or.inr he⟩
    have hr := line_reads hl.no_newline hxs p
    obtain ⟨hc1, hc2, hc3⟩ := hl.count hxs p
    have hiff : CleanCuts p cs ↔ CleanCuts p xs ∧ CleanCuts (p ++ encode l ++ encode nl.text) zs := by
      rw [hcuts, hcutsy, and_iff_right hend.1]
    refine ⟨⟨SseDecoder.text xs, SseDecoder.text es⟩ :: qs, ?_, ?_, ?_, ?_, ?_, ?_, ?_⟩
    · rw [ht, hty, hq.text_eq, body_cons]
    · rintro q (_ | ⟨_, hqm⟩)
      · refine ⟨?_, ?_, ?_, hend.2⟩
        · intro c hc
          rcases hr.mem c hc with hm | rfl
          · exact hl.printable c hm
          · exact Or.inl (by decide)
        · intro h0
          have := hr.length
          simp only at h0
          rw [h0] at this
          exact hl.ne_nil (List.eq_nil_of_length_eq_zero (by simpa using this))
        · intro c hc
          rcases hr.last c hc with hm | rfl
          · obtain ⟨d, hd, hsp⟩ := hl.last
            obtain rfl : d = c := Option.some.inj (hd.symm.trans hm)
            exact isLineBreak_isSpace hsp
          · decide
      · exact hq.ok q hqm
    · rintro q (_ | ⟨_, hqm⟩) c hc
      · exact (hr.mem c hc).imp_left fun hm => ⟨l, List.mem_cons_self, hm⟩
      · rcases hq.mem q hqm c hc with ⟨x, hx, hm⟩ | h
        · exact Or.inl ⟨x, List.mem_cons_of_mem _ hx, hm⟩
        · exact Or.inr h
    · intro h
      rw [List.map_cons, hq.clean (hiff.1 h).2, hr.clean (hiff.1 h).1]
    · have := hq.count
      simp only [textCount, pieceCount, List.map_cons, List.sum_cons] at this ⊢
      omega
    · intro h
      have h1 := hq.count
      have h2 := hq.count_lt
      simp only [textCount, pieceCount, List.map_cons, List.sum_cons] at h1 h2 ⊢
      by_cases hx : CleanCuts p xs
      · have := h2 fun hz => h (hiff.2 ⟨hx, hz⟩)
        omega
      · have := hc2 hx
        omega
    · rintro ⟨x, hx, hd⟩
      rcases List.mem_cons.1 hx with rfl | hx
      · exact ⟨_, List.mem_cons_self, hc3 hd⟩
      · obtain ⟨q, hqm, hqd⟩ := hq.data ⟨x, hx, hd⟩
        exact ⟨q, List.mem_cons_of_mem _ hqm, hqd⟩

/-! ## One event -/

def eventLines (e : Event) : List Text := e.lines.flatMap splitlines

theorem Event.lines_ne_nil (e : Event) : e.lines ≠ [] := by
  obtain ⟨l, hl, -⟩ := e.has_data
  exact List.ne_nil_of_mem hl

theorem pieces_ne_nil {p : Bytes} {e : Event} {cs : List Bytes} {qs : List Piece}
    (h : ReadsLines p e.lines cs qs) : qs ≠ [] := by
  obtain ⟨q, hq, -⟩ := h.data e.has_data
  exact List.ne_nil_of_mem hq

theorem linesText_last (nl : Newline) {ls : List Text} (h : ls ≠ []) (p : Bytes) :
    (p ++ encode (linesText nl ls)).getLast? = some 10 := by
  induction ls generalizing p with
  | nil => exact absurd rfl h
  | cons l ls ih =>
    rw [linesText_cons, encode_append, encode_append]
    cases ls with
    | nil =>
      rw [← List.append_assoc]
      simpa [linesText, encode] using newline_last nl (p ++ encode l)
    | cons l' ls =>
      rw [← List.append_assoc, ← List.append_assoc]
      exact ih (by simp) _

theorem event_cuts (e : Event) {cs : List Bytes} (hf : cs.flatten = encode e.text) (p : Bytes) :
    ∃ xs qs, ReadsLines p e.lines xs qs ∧
      (SseDecoder.text cs = body qs ++ ['\n'] ∧ (CleanCuts p cs ↔ CleanCuts p xs) ∨
        SseDecoder.text cs = body qs ++ ['\r', '\n'] ∧ ¬ CleanCuts p cs) := by
  have hl := linesText_last e.newline e.lines_ne_nil
  rw [Event.text, encode_append] at hf
  obtain ⟨xs, ys, hxs, hys, ht, hcuts⟩ := cut_at hf
    (junction_of_last (by simpa using hl []) (by decide) _)
  obtain ⟨qs, hq⟩ := lines_cuts e.lines_ok hxs p
  refine ⟨xs, qs, hq, ?_⟩
  rcases newline_cuts hys (hl p) (by decide) with ⟨hy, hc⟩ | ⟨hy, hc⟩
  · exact Or.inl ⟨by rw [ht, hq.text_eq, hy], by rw [hcuts, and_iff_left hc]⟩
  · exact Or.inr ⟨by rw [ht, hq.text_eq, hy], fun h => hc.1 ((hcuts p).1 h).2 rfl⟩

theorem body_append_head {qs : List Piece} (hok : ∀ q ∈ qs, q.Ok) (h : qs ≠ []) (t : Text) :
    (body qs ++ t).head? ≠ some '\n' := by
  have hb := body_head hok
  obtain ⟨q, qs, rfl⟩ := List.exists_cons_of_ne_nil h
  obtain ⟨c, l, hl⟩ := List.exists_cons_of_ne_nil (hok q (by simp)).2.1
  rw [body_cons, hl] at hb ⊢
  simpa using hb

/-! ## The events of a block -/

theorem anthropicBlock_eq (b : Text) : ∃ event,
    anthropicBlock b = if (splitlines b).filterMap lineData = [] then none
      else some (event, join ['\n'] ((splitlines b).filterMap lineData)) := by
  have h := foldl_anthropicLine (splitlines b) (none, [])
  refine ⟨((splitlines b).foldl anthropicLine (none, [])).1, ?_⟩
  rw [List.nil_append] at h
  rw [← h]
  rfl

theorem count_filterMap_lineData (ls : List Text) :
    (((ls.filterMap lineData).map (List.count replacement)).sum) = (ls.map lineCount).sum := by
  induction ls with
  | nil => rfl
  | cons l ls ih =>
    rcases h : lineData l with _ | d
    · simp [h, ih, lineCount]
    · simp [h, ih, lineCount]

/-- The `U+FFFD` in the data of the decoded events. -/
def dataCount (out : List (Option Text × Text)) : ℕ :=
  (out.map fun o => o.2.count replacement).sum

theorem anthropicBlock_count {b : Text} {o : Option Text × Text} (h : anthropicBlock b = some o) :
    o.2.count replacement = ((splitlines b).map lineCount).sum := by
  obtain ⟨event, he⟩ := anthropicBlock_eq b
  rw [he] at h
  split_ifs at h
  obtain rfl := Option.some.inj h
  rw [count_join_newline (by decide), count_filterMap_lineData]

theorem anthropicBlock_isSome {b : Text} (h : ∃ l ∈ splitlines b, dataField <+: l) :
    ∃ o, anthropicBlock b = some o := by
  obtain ⟨l, hl, d, rfl⟩ := h
  obtain ⟨event, he⟩ := anthropicBlock_eq b
  rw [he, if_neg]
  · exact ⟨_, rfl⟩
  · exact List.ne_nil_of_mem (List.mem_filterMap.2 ⟨_, hl, lineData_dataField d⟩)

theorem sum_lineCount_le (ls : List Text) :
    ((ls.flatMap splitlines).map lineCount).sum ≤ textCount ls := by
  have hle : ∀ xs : List Text, (xs.map lineCount).sum ≤ (xs.map (List.count replacement)).sum := by
    intro xs
    induction xs with
    | nil => exact le_rfl
    | cons x xs ih => exact Nat.add_le_add (lineCount_le x) ih
  refine (hle _).trans (le_of_eq ?_)
  induction ls with
  | nil => rfl
  | cons l ls ih =>
    rw [List.flatMap_cons, List.map_append, List.sum_append, ih, count_splitlines (by decide)]
    rfl

theorem splitlines_pieces {qs : List Piece} (hok : ∀ q ∈ qs, q.Ok)
    (hsep : ∀ q ∈ qs, ∀ c ∈ q.line, ¬ IsSeparator c) :
    (qs.flatMap fun q => splitlines q.line) = qs.map Piece.line := by
  induction qs with
  | nil => rfl
  | cons q qs ih =>
    obtain ⟨hp, hne, -⟩ := hok q (by simp)
    rw [List.flatMap_cons, ih (fun x hx => hok x (List.mem_cons_of_mem _ hx))
      (fun x hx => hsep x (List.mem_cons_of_mem _ hx)), splitlines_of_no_break hne]
    · rfl
    · intro c hc
      have hs := hsep q (by simp) c hc
      rw [← isLineBreak_of_printable (hp c hc)] at hs
      simpa using hs

/-! ## The whole stream -/

def streamCount (es : List Event) : ℕ := (es.map fun e => textCount e.lines).sum

structure ReadsStream (p : Bytes) (es : List Event) (cs : List Bytes) : Prop where
  head : (SseDecoder.text cs).head? ≠ some '\n'
  mem : ∀ c ∈ SseDecoder.text cs, IsSeparator c → ∃ e ∈ es, ∃ l ∈ e.lines, c ∈ l
  clean : CleanCuts p cs → (blocks (SseDecoder.text cs)).map splitlines = es.map eventLines
  length : (blocks (SseDecoder.text cs)).length ≤ es.length
  count : (∀ c ∈ SseDecoder.text cs, ¬ IsSeparator c) →
    ((blocks (SseDecoder.text cs)).filterMap anthropicBlock).length = es.length →
    streamCount es ≤ dataCount ((blocks (SseDecoder.text cs)).filterMap anthropicBlock) ∧
    (¬ CleanCuts p cs →
      streamCount es < dataCount ((blocks (SseDecoder.text cs)).filterMap anthropicBlock))

theorem blocks_block {qs : List Piece} (h : qs ≠ []) (hok : ∀ q ∈ qs, q.Ok) (y : Text) :
    blocks (body qs ++ '\n' :: y) = block qs :: blocks y := by
  rw [blocks, splitBlank_block h hok, List.dropLast_cons_of_ne_nil (splitBlank_ne_nil y)]
  rfl

theorem length_blocks_lost {qs : List Piece} (hok : ∀ q ∈ qs, q.Ok) {y : Text}
    (hy : y.head? ≠ some '\n') :
    (blocks (body qs ++ '\r' :: '\n' :: y)).length = (blocks y).length := by
  have he := splitBlank_ending (Or.inr rfl) hy
  rw [List.cons_append, List.singleton_append] at he
  simp [blocks, splitBlank_body hok (y := '\r' :: '\n' :: y) (by simp), he]

theorem block_count {p : Bytes} {e : Event} {xs : List Bytes} {qs : List Piece}
    (h : ReadsLines p e.lines xs qs) (hsep : ∀ q ∈ qs, ∀ c ∈ q.line, ¬ IsSeparator c) :
    ∃ o, anthropicBlock (block qs) = some o ∧ o.2.count replacement = pieceCount qs := by
  have hl : splitlines (block qs) = qs.map Piece.line := by
    rw [splitlines_block h.ok, splitlines_pieces h.ok hsep]
  obtain ⟨q, hq, hd⟩ := h.data e.has_data
  obtain ⟨o, ho⟩ := anthropicBlock_isSome (b := block qs)
    ⟨q.line, hl ▸ List.mem_map_of_mem hq, hd⟩
  refine ⟨o, ho, ?_⟩
  rw [anthropicBlock_count ho, hl, List.map_map]
  rfl

theorem streamText_head (es : List Event) : (streamText es).head? ≠ some '\n' := by
  cases es with
  | nil => simp [streamText]
  | cons e es =>
    have := linesText_head e.newline e.lines_ok (e.newline.text ++ streamText es)
      (fun h => absurd h e.lines_ne_nil)
    simpa [streamText, Event.text] using this

theorem event_separator {e : Event} {cs : List Bytes} (hf : cs.flatten = encode e.text) (p : Bytes)
    {c : Char} (hc : c ∈ SseDecoder.text cs) (hs : IsSeparator c) : ∃ l ∈ e.lines, c ∈ l := by
  obtain ⟨zs, qs, hq, h⟩ := event_cuts e hf p
  have hends : ∀ t : Text, t = ['\n'] ∨ t = ['\r', '\n'] → c ∉ t := by
    rintro t (rfl | rfl) <;> rcases hs with rfl | rfl | rfl <;> decide
  have hbody : c ∈ body qs := by
    rcases h with ⟨ht, -⟩ | ⟨ht, -⟩
    · rw [ht, List.mem_append] at hc
      exact hc.resolve_right (hends _ (Or.inl rfl))
    · rw [ht, List.mem_append] at hc
      exact hc.resolve_right (hends _ (Or.inr rfl))
  obtain ⟨q, hqm, hcq⟩ := List.mem_flatMap.1 hbody
  have hline := (List.mem_append.1 hcq).resolve_right (hends _ (hq.ok q hqm).2.2.2)
  refine (hq.mem q hqm c hline).resolve_right ?_
  rcases hs with rfl | rfl | rfl <;> decide

theorem stream_reads (es : List Event) {cs : List Bytes} (hf : cs.flatten = streamBytes es)
    (p : Bytes) : ReadsStream p es cs := by
  induction es generalizing cs p with
  | nil =>
    have ht := text_of_flatten_nil hf
    refine ⟨by simp [ht], by simp [ht], fun _ => by simp [ht, blocks, splitBlank],
      by simp [ht, blocks, splitBlank], fun _ _ => ⟨Nat.zero_le _, fun hc => ?_⟩⟩
    exact absurd (cleanCuts_of_plain (by simp [hf, streamBytes, streamText, encode]) p) hc
  | cons e es ih =>
    have hcons : streamBytes (e :: es) = encode e.text ++ encode (streamText es) :=
      encode_append _ _
    obtain ⟨xs, ys, hxs, hys, ht, hcuts⟩ := cut_at (hf.trans hcons)
      (junction_of_head _ (streamText_head es))
    have hy := ih hys (p ++ encode e.text)
    have hmem : ∀ c ∈ SseDecoder.text cs, IsSeparator c → ∃ e' ∈ e :: es, ∃ l ∈ e'.lines, c ∈ l := by
      intro c hc hs
      rw [ht, List.mem_append] at hc
      rcases hc with hc | hc
      · exact ⟨e, List.mem_cons_self, event_separator hxs p hc hs⟩
      · obtain ⟨e', he', h⟩ := hy.mem c hc hs
        exact ⟨e', List.mem_cons_of_mem _ he', h⟩
    obtain ⟨zs, qs, hq, ⟨hx, hclean⟩ | ⟨hx, hclean⟩⟩ := event_cuts e hxs p
    · have hne := pieces_ne_nil hq
      have htext : SseDecoder.text cs = body qs ++ '\n' :: SseDecoder.text ys := by simp [ht, hx]
      have hb : blocks (SseDecoder.text cs) = block qs :: blocks (SseDecoder.text ys) := by
        rw [htext, blocks_block hne hq.ok]
      refine ⟨htext ▸ body_append_head hq.ok hne _, hmem, fun h => ?_, ?_, fun hsep hlen => ?_⟩
      · have hls := hq.clean (hclean.1 ((hcuts p).1 h).1)
        rw [hb, List.map_cons, List.map_cons, hy.clean ((hcuts p).1 h).2, splitlines_block hq.ok,
          eventLines, ← hls, List.flatMap_map]
      · simpa [hb] using hy.length
      · rw [htext] at hsep
        obtain ⟨o, ho, hcount⟩ := block_count hq fun q hqm c hc => hsep c (by
          refine List.mem_append_left _ (List.mem_flatMap.2 ⟨q, hqm, List.mem_append_left _ hc⟩))
        rw [hb, List.filterMap_cons_some ho] at hlen ⊢
        have hlen' := Nat.succ.inj hlen
        obtain ⟨h1, h2⟩ := hy.count (fun c hc => hsep c (by simp [hc])) hlen'
        have h3 := hq.count
        have h4 := hq.count_lt
        simp only [streamCount, dataCount, List.map_cons, List.sum_cons, hcount] at h1 h2 ⊢
        refine ⟨by omega, fun hn => ?_⟩
        by_cases hz : CleanCuts p zs
        · have := h2 fun hys' => hn ((hcuts p).2 ⟨hclean.2 hz, hys'⟩)
          omega
        · have := h4 hz
          omega
    · have htext : SseDecoder.text cs = body qs ++ '\r' :: '\n' :: SseDecoder.text ys := by
        simp [ht, hx]
      have hb : (blocks (SseDecoder.text cs)).length = (blocks (SseDecoder.text ys)).length := by
        rw [htext, length_blocks_lost hq.ok hy.head]
      have hle := hy.length
      refine ⟨htext ▸ body_append_head hq.ok (pieces_ne_nil hq) _, hmem,
        fun h => absurd ((hcuts p).1 h).1 hclean, by simp only [List.length_cons]; omega,
        fun _ hlen => ?_⟩
      have := List.length_filterMap_le anthropicBlock (blocks (SseDecoder.text cs))
      simp only [List.length_cons] at hlen
      omega

/-! ## Which chunkings are read right -/

theorem whole_clean (es : List Event) : CleanCuts [] [streamBytes es] := by
  refine ⟨?_, trivial⟩
  simpa [streamBytes] using (junction_of_head [] (streamText_head es)).cleanCut []

theorem filterMap_congr_splitlines {α : Type} {parse : Text → Option α}
    (hp : ∀ {a b : Text}, splitlines a = splitlines b → parse a = parse b) {as bs : List Text}
    (h : as.map splitlines = bs.map splitlines) : as.filterMap parse = bs.filterMap parse := by
  induction as generalizing bs with
  | nil => rw [List.map_nil, eq_comm, List.map_eq_nil_iff] at h; rw [h]
  | cons a as ih =>
    cases bs with
    | nil => simp at h
    | cons b bs =>
      simp only [List.map_cons, List.cons.injEq] at h
      rw [List.filterMap_cons, List.filterMap_cons, hp h.1, ih h.2]

theorem clean_agree (loads : Text → Option Json) {es : List Event} {cs : List Bytes}
    (hf : cs.flatten = streamBytes es) (hc : CleanCuts [] cs) :
    Agree loads cs [streamBytes es] := by
  have h := ((stream_reads es hf []).clean hc).trans
    ((stream_reads es (List.flatten_singleton) []).clean (whole_clean es)).symm
  refine ⟨?_, ?_, ?_⟩
  · rw [anthropicEvents_eq, anthropicEvents_eq]
    exact filterMap_congr_splitlines anthropicBlock_congr h
  · rw [geminiEvents_eq, geminiEvents_eq]
    exact filterMap_congr_splitlines geminiBlock_congr h
  · rw [openaiEvents_eq, openaiEvents_eq]
    exact filterMap_congr_splitlines (openaiBlock_congr loads) h

theorem whole_count (es : List Event) :
    (anthropicEvents [streamBytes es]).length = es.length ∧
      dataCount (anthropicEvents [streamBytes es]) ≤ streamCount es := by
  have h := (stream_reads es (List.flatten_singleton) []).clean (whole_clean es)
  rw [anthropicEvents_eq]
  generalize blocks (SseDecoder.text [streamBytes es]) = bs at h
  induction es generalizing bs with
  | nil => simp_all [dataCount]
  | cons e es ih =>
    cases bs with
    | nil => simp at h
    | cons b bs =>
      simp only [List.map_cons, List.cons.injEq] at h
      obtain ⟨l, hl, d, rfl⟩ := e.has_data
      have hd : ∃ x ∈ splitlines b, dataField <+: x := by
        rw [h.1]
        obtain ⟨x, xs, hx⟩ := splitlines_prefix (t := dataField) (by decide) dataField_no_break d
        exact ⟨_, List.mem_flatMap.2 ⟨_, hl, hx ▸ List.mem_cons_self⟩, List.prefix_append _ _⟩
      obtain ⟨o, ho⟩ := anthropicBlock_isSome hd
      have hcount := anthropicBlock_count ho
      have hle := sum_lineCount_le e.lines
      obtain ⟨h1, h2⟩ := ih bs h.2
      rw [h.1, eventLines] at hcount
      rw [List.filterMap_cons_some ho]
      simp only [List.length_cons, dataCount, streamCount, List.map_cons, List.sum_cons] at h1 h2 ⊢
      omega

theorem agree_clean {es : List Event} {cs : List Bytes} (hf : cs.flatten = streamBytes es)
    (hsep : ∀ c ∈ SseDecoder.text cs, ¬ IsSeparator c)
    (h : anthropicEvents cs = anthropicEvents [streamBytes es]) : CleanCuts [] cs := by
  by_contra hc
  obtain ⟨hlen, hle⟩ := whole_count es
  rw [← h, anthropicEvents_eq] at hlen hle
  have := ((stream_reads es hf []).count hsep hlen).2 hc
  omega

/-! ## Which streams are read right under every chunking -/

def singles (bs : Bytes) : List Bytes := bs.map fun b => [b]

theorem flatten_singles (bs : Bytes) : (singles bs).flatten = bs := by
  induction bs with
  | nil => rfl
  | cons b bs ih => exact congrArg (b :: ·) ih

theorem singles_separator {bs : Bytes} {c : Char} (h : c ∈ SseDecoder.text (singles bs)) :
    ¬ IsSeparator c := by
  obtain ⟨x, hx, hc⟩ := List.mem_flatMap.1 h
  obtain ⟨b, -, rfl⟩ := List.mem_map.1 hx
  have hn : normalizeChunk [b] = if b.toNat < 0x80 then [Char.ofNat b.toNat] else [replacement] := by
    rw [normalizeChunk, decode_byte]
    split_ifs
    · exact (replaceCrlf_cons (by simp)).trans rfl
    · rfl
  rw [hn] at hc
  split_ifs at hc with hb
  · obtain rfl := List.mem_singleton.1 hc
    have hlt := toNat_of_ofNat hb rfl
    rintro (hs | hs | hs) <;> rw [hs] at hlt <;> revert hb <;> rw [hlt] <;> decide
  · obtain rfl := List.mem_singleton.1 hc
    rintro (hs | hs | hs) <;> revert hs <;> decide

theorem singles_cut {p u v : Bytes} (h : CleanCuts p (singles (u ++ v))) (hv : v ≠ []) :
    CleanCut (p ++ u) v := by
  induction u generalizing p with
  | nil =>
    obtain ⟨b, v, rfl⟩ := List.exists_cons_of_ne_nil hv
    have hcut : CleanCut p (singles (b :: v)).flatten := h.1
    rw [flatten_singles] at hcut
    simpa using hcut
  | cons b u ih => simpa using ih h.2

theorem ascii_of_clean {l r : Text} {c : Char} {p : Bytes}
    (h : CleanCuts p (singles (encode (l ++ c :: r)))) : c.toNat < 0x80 := by
  obtain ⟨b, ts, hb, -, hts⟩ := encodeChar_shape c
  rcases ts with _ | ⟨t, ts⟩
  · have hsize : c.utf8Size = 1 := by rw [← String.length_utf8EncodeChar, hb]; rfl
    have hle := UInt32.le_iff_toNat_le.1 (Char.utf8Size_eq_one_iff.1 hsize)
    exact Nat.lt_succ_of_le hle
  · have he : encode (l ++ c :: r) = (encode l ++ [b]) ++ (t :: ts ++ encode r) := by
      rw [encode_append, encode_cons, hb]
      simp
    rw [he] at h
    have := (singles_cut h (by simp)).1 t (by simp)
    exact absurd (hts t (by simp)) this

theorem clean_of_plain {p : Bytes} {cs : List Bytes} (hp : 13 ∉ p)
    (h : ∀ b ∈ cs.flatten, ¬ IsTail b ∧ b ≠ 13) : CleanCuts p cs := by
  induction cs generalizing p with
  | nil => trivial
  | cons c cs ih =>
    refine ⟨⟨fun b hb => (h b (List.mem_of_mem_head? hb)).1, fun ⟨⟨t, ht⟩, _⟩ => ?_⟩,
      ih ?_ (fun b hb => h b (by simp [hb]))⟩
    · exact hp (ht ▸ by simp)
    · rw [List.mem_append]
      rintro (hm | hm)
      · exact hp hm
      · exact (h 13 (by simp [hm])).2 rfl

theorem text_infix {es : List Event} {e : Event} (he : e ∈ es) :
    ∃ l r, streamText es = l ++ e.text ++ r := by
  obtain ⟨xs, ys, rfl⟩ := List.append_of_mem he
  exact ⟨streamText xs, streamText ys, by simp [streamText]⟩

theorem plain_of_singles {es : List Event} (h : CleanCuts [] (singles (streamBytes es)))
    {e : Event} (he : e ∈ es) :
    e.newline = .lf ∧ ∀ l ∈ e.lines, ∀ c ∈ l, c.toNat < 0x80 := by
  obtain ⟨x, y, hxy⟩ := text_infix he
  rw [streamBytes, hxy] at h
  constructor
  · cases hnl : e.newline with
    | lf => rfl
    | crlf =>
      exfalso
      obtain ⟨z, hz⟩ := List.getLast?_eq_some_iff.1 (linesText_last e.newline e.lines_ne_nil [])
      have hsplit : encode (x ++ e.text ++ y) = (encode x ++ z ++ [10, 13]) ++ (10 :: encode y) := by
        rw [List.nil_append] at hz
        rw [Event.text, encode_append, encode_append, encode_append, hz, hnl,
          show encode Newline.crlf.text = [13, 10] from rfl]
        simp
      rw [hsplit] at h
      exact (singles_cut h (by simp)).2 ⟨⟨encode x ++ z, by simp⟩, rfl⟩
  · intro l hl c hc
    obtain ⟨ls, rs, hls⟩ := List.append_of_mem hl
    obtain ⟨a, b, rfl⟩ := List.append_of_mem hc
    have hsplit : x ++ e.text ++ y = (x ++ linesText e.newline ls ++ a) ++ c ::
        (b ++ (e.newline.text ++ linesText e.newline rs ++ e.newline.text ++ y)) := by
      rw [Event.text, hls]
      simp [linesText]
    rw [hsplit] at h
    exact ascii_of_clean h

theorem mem_streamText {es : List Event} {c : Char} (h : c ∈ streamText es) :
    ∃ e ∈ es, c ∈ e.newline.text ∨ ∃ l ∈ e.lines, c ∈ l := by
  obtain ⟨e, he, hc⟩ := List.mem_flatMap.1 h
  refine ⟨e, he, ?_⟩
  rcases List.mem_append.1 hc with hc | hc
  · obtain ⟨l, hl, hc⟩ := List.mem_flatMap.1 hc
    rcases List.mem_append.1 hc with hc | hc
    · exact Or.inr ⟨l, hl, hc⟩
    · exact Or.inl hc
  · exact Or.inl hc

theorem clean_of_plain_stream {es : List Event}
    (h : ∀ e ∈ es, e.newline = .lf ∧ ∀ l ∈ e.lines, ∀ c ∈ l, c.toNat < 0x80) {cs : List Bytes}
    (hf : cs.flatten = streamBytes es) : CleanCuts [] cs := by
  have hchar : ∀ c ∈ streamText es, c.toNat < 0x80 ∧ c ≠ '\r' := by
    intro c hc
    obtain ⟨e, he, hc | ⟨l, hl, hc⟩⟩ := mem_streamText hc
    · rw [(h e he).1] at hc
      obtain rfl := List.mem_singleton.1 hc
      decide
    · refine ⟨(h e he).2 l hl c hc, ?_⟩
      rintro rfl
      exact absurd ((e.lines_ok l hl).printable _ hc) (by decide)
  refine clean_of_plain (by simp) fun b hb => ?_
  rw [hf] at hb
  have hlt := encode_ascii (fun c hc => (hchar c hc).1) hb
  refine ⟨fun ht => absurd hlt (Nat.not_lt.2 ht.1), ?_⟩
  rintro rfl
  obtain ⟨c, hc, hcb⟩ := mem_encode hb hlt
  exact (hchar c hc).2 (Char.ext (UInt32.toNat_inj.1 hcb))

/-- The decoders agree with the whole stream under clean cuts, and, unless raw separators hide a
cut, under no others; the streams read right under every chunking are the ASCII ones with LF line
ends. -/
theorem chunking_invariant_iff (loads : Text → Option Json) (es : List Event) :
    (∀ chunks, chunks.flatten = streamBytes es → CleanCuts [] chunks →
      Agree loads chunks [streamBytes es]) ∧
    ((∀ e ∈ es, ∀ l ∈ e.lines, ∀ c ∈ l, ¬ IsSeparator c) →
      ∀ chunks, chunks.flatten = streamBytes es →
        (Agree loads chunks [streamBytes es] ↔ CleanCuts [] chunks)) ∧
    ((∀ chunks, chunks.flatten = streamBytes es → Agree loads chunks [streamBytes es]) ↔
      ∀ e ∈ es, e.newline = .lf ∧ ∀ l ∈ e.lines, ∀ c ∈ l, c.toNat < 0x80) := by
  refine ⟨fun cs hf hc => clean_agree loads hf hc, fun hsep cs hf => ?_, fun h => ?_, fun h cs hf => ?_⟩
  · refine ⟨fun h => agree_clean hf (fun c hc hs => ?_) h.1, clean_agree loads hf⟩
    obtain ⟨e, he, l, hl, hm⟩ := (stream_reads es hf []).mem c hc hs
    exact hsep e he l hl c hm hs
  · have hf := flatten_singles (streamBytes es)
    have hclean := agree_clean hf (fun c hc => singles_separator hc) (h _ hf).1
    exact fun e he => plain_of_singles hclean he
  · exact clean_agree loads hf (clean_of_plain_stream h hf)

/-- `data: {"text":"é"}`, one event with LF line ends. -/
def accentEvent : Event where
  newline := .lf
  lines := ["data: \x7b\"text\":\"é\"\x7d".toList]
  lines_ok := by
    rw [List.forall_mem_singleton]
    exact ⟨by decide, ⟨'}', by decide, by decide⟩, Or.inr (by decide)⟩
  has_data := ⟨_, List.mem_singleton_self _, by decide⟩

/-- The cut is between the two bytes of the `é`. -/
theorem chunking_changes_events :
    ¬ ∀ (loads : Text → Option Json) (es : List Event) (chunks : List Bytes),
      chunks.flatten = streamBytes es → Agree loads chunks [streamBytes es] := by
  intro h
  have hcut := h (fun _ => none) [accentEvent]
    [(streamBytes [accentEvent]).take 16, (streamBytes [accentEvent]).drop 16] (by simp)
  exact absurd hcut.1 (by decide)

end Varsten.Proxy.SseChunking
