import Varsten.Proxy.SseDecoder

/-!
# Cuts of a byte string

How the text a decoder buffers depends on where a byte string was cut into
chunks. A list of chunks can be cut again at a junction between two parts of the
stream; inside one character, and inside one line, an unclean cut leaves a trace
that `U+FFFD` counts make visible.
-/

namespace Varsten.Proxy.SseCuts

open Python.Utf8
open Python.Text
open SseDecoder

/-- After `u` the bytes `v` start a character, and not the LF of a blank line's CR LF. -/
def CleanCut (u v : Bytes) : Prop := AtBoundary v ∧ ¬ ([10, 13] <:+ u ∧ v.head? = some 10)

instance (u v : Bytes) : Decidable (CleanCut u v) := inferInstanceAs (Decidable (_ ∧ _))

/-- Every chunk read after `u` starts at a clean cut. -/
def CleanCuts (u : Bytes) : List Bytes → Prop
  | [] => True
  | c :: cs => CleanCut u (c :: cs).flatten ∧ CleanCuts (u ++ c) cs

def decCleanCuts : (u : Bytes) → (cs : List Bytes) → Decidable (CleanCuts u cs)
  | _, [] => isTrue trivial
  | u, c :: cs => @instDecidableAnd _ _ inferInstance (decCleanCuts (u ++ c) cs)

instance (u : Bytes) (cs : List Bytes) : Decidable (CleanCuts u cs) := decCleanCuts u cs

def Junction (u v : Bytes) : Prop :=
  AtBoundary v ∧ (v.head? = some 10 → ∃ b, u.getLast? = some b ∧ b ≠ 13)

/-! ## Cutting at a junction -/

theorem cleanCut_nil (u : Bytes) : CleanCut u [] := by simp [CleanCut, AtBoundary]

theorem cleanCut_append_right {u v w : Bytes} (hv : v ≠ []) :
    CleanCut u (v ++ w) ↔ CleanCut u v := by
  cases v with
  | nil => exact absurd rfl hv
  | cons b v => rfl

theorem Junction.cleanCut {u v : Bytes} (h : Junction u v) (w : Bytes) :
    CleanCut (w ++ u) v := by
  refine ⟨h.1, fun ⟨⟨t, ht⟩, hv⟩ => ?_⟩
  obtain ⟨b, hb, hne⟩ := h.2 hv
  have hl : (w ++ u).getLast? = some b := List.mem_getLast?_append_of_mem_getLast? hb
  rw [← ht] at hl
  exact hne (by simpa using hl.symm)

theorem Junction.of_append_right {u v w : Bytes} (h : Junction u (v ++ w)) (hv : v ≠ []) :
    Junction u v := by
  cases v with
  | nil => exact absurd rfl hv
  | cons b v => exact h

theorem Junction.of_append_left {u v w : Bytes} (h : Junction (u ++ v) w) (hv : v ≠ []) :
    Junction v w :=
  ⟨h.1, fun hw => by simpa [List.getLast?_append_of_ne_nil _ hv] using h.2 hw⟩

theorem normalize_append {u v : Bytes} (h : Junction u v) :
    normalizeChunk (u ++ v) = normalizeChunk u ++ normalizeChunk v := by
  rw [normalizeChunk, decode_append u h.1, replaceCrlf_append]
  · rfl
  rintro ⟨hu, hv⟩
  obtain ⟨c, hc, hcn⟩ := decode_getLast (by decide) (by decide) hu
  obtain ⟨d, hd, hdn⟩ := decode_head (by decide) (by decide) hv
  obtain ⟨b, hb, hne⟩ := h.2 (hd.trans (congrArg some (UInt8.toNat_inj.1 hdn)))
  rw [hc] at hb
  exact hne (Option.some.inj hb ▸ UInt8.toNat_inj.1 hcn)

theorem cleanCuts_cons_append {p u c : Bytes} {cs : List Bytes} :
    CleanCuts p ((u ++ c) :: cs) ↔
      CleanCut p (u ++ c ++ cs.flatten) ∧ CleanCuts (p ++ u ++ c) cs := by
  simp [CleanCuts]

theorem cleanCut_split {p u v : Bytes} (h : CleanCut (p ++ u) v) :
    CleanCut p (u ++ v) ↔ CleanCut p u := by
  by_cases hu : u = []
  · subst hu
    exact ⟨fun _ => cleanCut_nil p, fun _ => by simpa using h⟩
  · exact cleanCut_append_right hu

/-- A chunk list over `u ++ v` is a chunk list over `u` followed by one over `v`. -/
theorem cut_at {chunks : List Bytes} {u v : Bytes} (hflat : chunks.flatten = u ++ v)
    (hj : Junction u v) : ∃ xs ys, xs.flatten = u ∧ ys.flatten = v ∧
      text chunks = text xs ++ text ys ∧
      ∀ p, CleanCuts p chunks ↔ CleanCuts p xs ∧ CleanCuts (p ++ u) ys := by
  induction chunks generalizing u with
  | nil =>
    obtain ⟨rfl, rfl⟩ := List.append_eq_nil_iff.1 hflat.symm
    exact ⟨[], [], rfl, rfl, rfl, fun p => by simp [CleanCuts]⟩
  | cons c cs ih =>
    have hclean := fun p => hj.cleanCut p
    rcases List.append_eq_append_iff.1 hflat with ⟨a, rfl, hcs⟩ | ⟨a, rfl, hv⟩
    · by_cases ha : a = []
      · subst ha
        simp only [List.append_nil, List.nil_append] at hcs hclean ⊢
        refine ⟨[c], cs, by simp, hcs, by simp [text_cons], fun p => ?_⟩
        simp only [CleanCuts, List.flatten_cons, List.flatten_nil, List.append_nil, and_true, hcs,
          cleanCut_split (hclean p)]
      · obtain ⟨xs, ys, hxs, hys, htext, hcuts⟩ := ih hcs (hj.of_append_left ha)
        refine ⟨c :: xs, ys, by simp [hxs], hys, by simp [text_cons, htext], fun p => ?_⟩
        simp only [CleanCuts, List.flatten_cons, hxs, hcs, hcuts (p ++ c), ← List.append_assoc,
          cleanCut_split (by simpa using hclean p)]
        exact and_assoc.symm
    · refine ⟨[u], a :: cs, by simp, by simpa using hv.symm, ?_, fun p => ?_⟩
      · by_cases ha : a = []
        · simp [ha, text_cons]
        · rw [text_cons, normalize_append (hv ▸ hj |>.of_append_right ha)]
          simp [text_cons]
      · have hc := hclean p
        rw [cleanCuts_cons_append, List.append_assoc, ← hv, cleanCut_split hc]
        simp only [CleanCuts, List.flatten_cons, List.flatten_nil, List.append_nil, and_true]
        rw [← hv]
        simp [hc]

/-! ## Cuts that leave no trace -/

theorem text_of_flatten_nil {cs : List Bytes} (h : cs.flatten = []) : text cs = [] := by
  induction cs with
  | nil => rfl
  | cons c cs ih =>
    rw [List.flatten_cons, List.append_eq_nil_iff] at h
    rw [text_cons, h.1, ih h.2]
    rfl

theorem cleanCuts_of_plain {cs : List Bytes} (h : ∀ b ∈ cs.flatten, ¬ IsTail b ∧ b ≠ 10)
    (p : Bytes) : CleanCuts p cs := by
  induction cs generalizing p with
  | nil => trivial
  | cons c cs ih =>
    refine ⟨⟨fun b hb => (h b (List.mem_of_mem_head? hb)).1, fun ⟨_, hb⟩ => ?_⟩,
      ih (fun b hb => h b (by simp [hb])) _⟩
    exact (h 10 (List.mem_of_mem_head? hb)).2 rfl

theorem replaceCrlf_replicate (n : ℕ) :
    replaceCrlf (List.replicate n replacement) = List.replicate n replacement :=
  replaceCrlf_of_no_newline (fun h => absurd (List.eq_of_mem_replicate h) (by decide))

theorem text_of_tails {cs : List Bytes} (h : ∀ b ∈ cs.flatten, IsTail b) :
    text cs = List.replicate cs.flatten.length replacement := by
  induction cs with
  | nil => rfl
  | cons c cs ih =>
    rw [text_cons, ih (fun b hb => h b (by simp [hb])), normalizeChunk,
      decode_tails (fun b hb => h b (by simp [hb])), replaceCrlf_replicate, List.replicate_append_replicate,
      List.flatten_cons, List.length_append]

/-! ## One character -/

theorem utf8_ne_nil (c : Char) : String.utf8EncodeChar c ≠ [] := by
  obtain ⟨b, ts, h, -⟩ := encodeChar_shape c
  simp [h]

theorem decode_utf8 (c : Char) : decode (String.utf8EncodeChar c) = [c] := by
  simpa using decode_char c []

theorem normalize_utf8 (c : Char) : normalizeChunk (String.utf8EncodeChar c) = [c] := by
  rw [normalizeChunk, decode_utf8, replaceCrlf_cons (by simp), replaceCrlf]

theorem head_utf8 {c : Char} (hc : c ≠ '\n') {b : UInt8}
    (hb : (String.utf8EncodeChar c).head? = some b) : b ≠ 10 := by
  rintro rfl
  obtain ⟨d, ts, h, -⟩ := encodeChar_shape c
  obtain rfl : d = 10 := by simpa [h] using hb
  have hd : decode (String.utf8EncodeChar c) = '\n' :: decode ts := by rw [h]; rfl
  rw [decode_utf8] at hd
  exact hc (List.cons.inj hd).1

theorem char_cuts {cs : List Bytes} {c : Char} (hc : c ≠ '\n')
    (h : cs.flatten = String.utf8EncodeChar c) (p : Bytes) :
    CleanCuts p cs ∧ text cs = [c] ∨
      ¬ CleanCuts p cs ∧ ∃ m, 2 ≤ m ∧ text cs = List.replicate m replacement := by
  obtain ⟨b, ts, hbts, hb, hts⟩ := encodeChar_shape c
  induction cs generalizing p with
  | nil => exact absurd h.symm (utf8_ne_nil c)
  | cons x xs ih =>
    have hcut : CleanCut p (x :: xs).flatten := by
      rw [h]
      refine ⟨?_, fun ⟨_, hl⟩ => head_utf8 hc hl rfl⟩
      intro y hy
      obtain rfl : b = y := by simpa [hbts] using hy
      exact hb
    rw [List.flatten_cons] at h
    by_cases hx : x = []
    · subst hx
      simp only [CleanCuts, hcut, true_and, List.append_nil, text_cons, normalize_nil,
        List.nil_append]
      exact ih h p
    by_cases hxs : xs.flatten = []
    · left
      refine ⟨⟨hcut, cleanCuts_of_plain (by simp [hxs]) _⟩, ?_⟩
      rw [text_cons, text_of_flatten_nil hxs, List.append_nil, ← normalize_utf8 c, ← h, hxs,
        List.append_nil]
    · right
      have hx0 : 0 < x.length := List.length_pos_iff.2 hx
      have hlen := congrArg List.length h
      have hpos : 0 < xs.flatten.length := List.length_pos_iff.2 hxs
      rw [List.length_append] at hlen
      have htail : ∀ y ∈ xs.flatten, IsTail y := by
        intro y hy
        obtain ⟨z, zs, rfl⟩ := List.exists_cons_of_ne_nil hx
        rw [hbts, List.cons_append, List.cons.injEq] at h
        exact hts y (h.2 ▸ List.mem_append_right _ hy)
      have hnx : normalizeChunk x = [replacement] := by
        have htake : x = (String.utf8EncodeChar c).take x.length := by rw [← h]; simp
        rw [normalizeChunk, htake, decode_char_take c hx0 (by omega)]
        rfl
      refine ⟨?_, xs.flatten.length + 1, by omega, ?_⟩
      · rintro ⟨-, hclean⟩
        cases xs with
        | nil => exact hxs rfl
        | cons y ys =>
          obtain ⟨z, zs, hz⟩ := List.exists_cons_of_ne_nil hxs
          exact hclean.1.1 z (by simp [hz]) (htail z (by simp [hz]))
      · rw [text_cons, hnx, text_of_tails htail, List.replicate_succ]
        rfl

/-! ## One line -/

/-- How a chunked line reads: unchanged when the cuts are clean, and with more `U+FFFD` than it
holds otherwise. -/
structure Reads (p : Bytes) (l : Text) (cs : List Bytes) : Prop where
  clean : CleanCuts p cs → text cs = l
  length : l.length ≤ (text cs).length
  mem : ∀ x ∈ text cs, x ∈ l ∨ x = replacement
  last : ∀ x ∈ (text cs).getLast?, x ∈ l.getLast? ∨ x = replacement
  count : l.count replacement ≤ (text cs).count replacement
  count_lt : ¬ CleanCuts p cs → l.count replacement < (text cs).count replacement

theorem encode_cons (c : Char) (l : Text) :
    encode (c :: l) = String.utf8EncodeChar c ++ encode l := rfl

theorem atBoundary_encode (l : Text) : AtBoundary (encode l) := by
  cases l with
  | nil => simp [encode, AtBoundary]
  | cons c l => simpa using atBoundary_encode_append c l []

theorem head_encode {l : Text} (hl : '\n' ∉ l) {b : UInt8} (hb : (encode l).head? = some b) :
    b ≠ 10 := by
  cases l with
  | nil => simp [encode] at hb
  | cons c l =>
    obtain ⟨d, ts, h, -⟩ := encodeChar_shape c
    refine head_utf8 (c := c) (by rintro rfl; simp at hl) ?_
    rw [encode_cons, h] at hb
    rw [h]
    simpa using hb

theorem junction_of_no_newline (u : Bytes) {l : Text} (hl : '\n' ∉ l) : Junction u (encode l) :=
  ⟨atBoundary_encode l, fun h => absurd rfl (head_encode hl h)⟩

theorem char_reads {cs : List Bytes} {c : Char} (hc : c ≠ '\n')
    (h : cs.flatten = String.utf8EncodeChar c) (p : Bytes) : Reads p [c] cs := by
  rcases char_cuts hc h p with ⟨hclean, ht⟩ | ⟨hclean, m, hm, ht⟩
  · exact ⟨fun _ => ht, by simp [ht], by simp [ht], by simp [ht], by simp [ht],
      fun hn => absurd hclean hn⟩
  · have hle : List.count replacement [c] ≤ 1 := by
      simpa using List.count_le_length (a := replacement) (l := [c])
    have hcount : (text cs).count replacement = m := by rw [ht, List.count_replicate_self]
    refine ⟨fun hn => absurd hn hclean, by simp [ht]; omega, ?_, ?_, by omega, fun _ => by omega⟩
    · intro x hx
      rw [ht] at hx
      exact Or.inr (List.eq_of_mem_replicate hx)
    · intro x hx
      rw [ht] at hx
      exact Or.inr (List.eq_of_mem_replicate (List.mem_of_mem_getLast? hx))

theorem Reads.append {p u : Bytes} {a b : Text} {cs xs ys : List Bytes} (ha : Reads p a xs)
    (hb : Reads (p ++ u) b ys) (ht : text cs = text xs ++ text ys)
    (hcuts : CleanCuts p cs ↔ CleanCuts p xs ∧ CleanCuts (p ++ u) ys) : Reads p (a ++ b) cs where
  clean h := by rw [ht, ha.clean (hcuts.1 h).1, hb.clean (hcuts.1 h).2]
  length := by
    have h1 := ha.length
    have h2 := hb.length
    simp only [ht, List.length_append]
    omega
  mem x hx := by
    rw [ht, List.mem_append] at hx
    rcases hx with hx | hx
    · exact (ha.mem x hx).imp_left (List.mem_append_left _)
    · exact (hb.mem x hx).imp_left (List.mem_append_right _)
  last x hx := by
    rw [ht] at hx
    by_cases hy : text ys = []
    · have hb0 : b = [] := List.eq_nil_of_length_eq_zero (by simpa [hy] using hb.length)
      rw [hy, List.append_nil] at hx
      simpa [hb0] using ha.last x hx
    · rw [List.getLast?_append_of_ne_nil _ hy] at hx
      exact (hb.last x hx).imp_left List.mem_getLast?_append_of_mem_getLast?
  count := by
    have h1 := ha.count
    have h2 := hb.count
    simp only [ht, List.count_append]
    omega
  count_lt h := by
    have h1 := ha.count
    have h2 := hb.count
    simp only [ht, List.count_append]
    by_cases hx : CleanCuts p xs
    · have := hb.count_lt fun hy => h (hcuts.2 ⟨hx, hy⟩)
      omega
    · have := ha.count_lt hx
      omega

theorem line_reads {cs : List Bytes} {l : Text} (hl : '\n' ∉ l) (h : cs.flatten = encode l)
    (p : Bytes) : Reads p l cs := by
  induction l generalizing cs p with
  | nil =>
    have ht := text_of_flatten_nil h
    exact ⟨fun _ => ht, by simp, by simp [ht], by simp [ht], by simp [ht],
      fun hn => absurd (cleanCuts_of_plain (by simp [h, encode]) p) hn⟩
  | cons c l ih =>
    have hl' : '\n' ∉ l := fun h' => hl (List.mem_cons_of_mem _ h')
    obtain ⟨xs, ys, hxs, hys, ht, hcuts⟩ := cut_at (h.trans (encode_cons c l))
      (junction_of_no_newline _ hl')
    have hc : c ≠ '\n' := by rintro rfl; simp at hl
    exact (char_reads hc hxs p).append (ih hl' hys _) ht (hcuts p)

theorem ascii_clean (cs : List Bytes) {l : Text} (hl : '\n' ∉ l) (ha : ∀ c ∈ l, c.toNat < 0x80)
    (h : cs.flatten = encode l) (p : Bytes) : CleanCuts p cs := by
  refine cleanCuts_of_plain (fun b hb => ?_) p
  rw [h] at hb
  refine ⟨fun ht => absurd (encode_ascii ha hb) (Nat.not_lt.2 ht.1), ?_⟩
  rintro rfl
  obtain ⟨c, hc, hbc⟩ := mem_encode hb (by decide)
  obtain rfl : c = '\n' := Char.ext (UInt32.toNat_inj.1 hbc)
  exact hl hc

/-! ## One line end -/

theorem byte_cuts {cs : List Bytes} {b : UInt8} (hb : b.toNat < 0x80) (h : cs.flatten = [b])
    (p : Bytes) : text cs = [Char.ofNat b.toNat] ∧ (CleanCuts p cs ↔ CleanCut p [b]) := by
  induction cs generalizing p with
  | nil => simp at h
  | cons x xs ih =>
    have hx := h
    rw [List.flatten_cons, List.append_eq_singleton_iff] at hx
    simp only [CleanCuts, h]
    rcases hx with ⟨rfl, hxs⟩ | ⟨rfl, hxs⟩
    · rw [text_cons, List.append_nil, (ih hxs p).2, and_self]
      exact ⟨(ih hxs p).1, Iff.rfl⟩
    · refine ⟨?_, and_iff_left (cleanCuts_of_plain (by simp [hxs]) _)⟩
      have hd : decode [b] = [Char.ofNat b.toNat] := by
        simp only [decode, run_cons, step_idle, start_one hb]
        rfl
      rw [text_cons, text_of_flatten_nil hxs, List.append_nil, normalizeChunk, hd,
        replaceCrlf_cons (by simp), replaceCrlf]

theorem suffix_crlf {p : Bytes} : [10, 13] <:+ p ++ [(13 : UInt8)] ↔ p.getLast? = some 10 := by
  constructor
  · rintro ⟨t, ht⟩
    have hp : t ++ [10] = p := List.append_cancel_right (by simpa using ht)
    simp [← hp]
  · intro hp
    obtain ⟨q, rfl⟩ := List.getLast?_eq_some_iff.1 hp
    exact ⟨q, by simp⟩

theorem crlf_cuts {cs : List Bytes} (h : cs.flatten = [13, 10]) (p : Bytes) :
    text cs = ['\n'] ∧ CleanCuts p cs ∨
      text cs = ['\r', '\n'] ∧ (CleanCuts p cs ↔ p.getLast? ≠ some 10) := by
  have hcut : CleanCut p [13, 10] := by
    simp [CleanCut, AtBoundary, IsTail]
  induction cs generalizing p with
  | nil => simp at h
  | cons x xs ih =>
    have hx := h
    simp only [CleanCuts, h, hcut, true_and]
    rw [List.flatten_cons] at hx
    rcases x with _ | ⟨b, _ | ⟨d, x⟩⟩
    · simpa [text_cons] using ih hx p hcut
    · obtain ⟨rfl, hxs⟩ : b = 13 ∧ xs.flatten = [10] := by simpa using hx
      obtain ⟨ht, hc⟩ := byte_cuts (by decide) hxs (p ++ [13])
      refine Or.inr ⟨by rw [text_cons, ht]; rfl, ?_⟩
      rw [hc, CleanCut, suffix_crlf]
      simp [AtBoundary, IsTail]
    · obtain ⟨rfl, rfl, rfl, hxs⟩ : b = 13 ∧ d = 10 ∧ x = [] ∧ xs.flatten = [] := by
        simpa using hx
      refine Or.inl ⟨by rw [text_cons, text_of_flatten_nil hxs]; rfl, ?_⟩
      exact cleanCuts_of_plain (by simp [hxs]) _

end Varsten.Proxy.SseCuts
