import Mathlib

/-!
# UTF-8 with replacement

`str.encode()` and `bytes.decode("utf-8", errors="replace")`. The decoder reads
one byte at a time; its state is what the bytes since the last character
boundary still owe. A byte that cannot continue an open sequence closes it with
one U+FFFD and is read again as a first byte, and a sequence that the input
leaves open at its end is one U+FFFD: every maximal subpart is replaced once.
-/

namespace Varsten.Python.Utf8

abbrev Bytes := List UInt8
abbrev Text := List Char

def replacement : Char := Char.ofNat 0xFFFD

def encode (cs : Text) : Bytes := cs.flatMap String.utf8EncodeChar

structure State where
  need : ℕ
  value : ℕ
  lo : ℕ
  hi : ℕ
deriving DecidableEq

def State.idle : State := ⟨0, 0, 0, 0⟩

def start (n : ℕ) : Text × State :=
  if n < 0x80 then ([Char.ofNat n], .idle)
  else if n < 0xC2 then ([replacement], .idle)
  else if n < 0xE0 then ([], ⟨1, n - 0xC0, 0x80, 0xBF⟩)
  else if n < 0xF0 then
    ([], ⟨2, n - 0xE0, if n = 0xE0 then 0xA0 else 0x80, if n = 0xED then 0x9F else 0xBF⟩)
  else if n < 0xF5 then
    ([], ⟨3, n - 0xF0, if n = 0xF0 then 0x90 else 0x80, if n = 0xF4 then 0x8F else 0xBF⟩)
  else ([replacement], .idle)

def step (s : State) (n : ℕ) : Text × State :=
  if s.need = 0 then start n
  else if s.lo ≤ n ∧ n ≤ s.hi then
    if s.need = 1 then ([Char.ofNat (s.value * 64 + (n - 0x80))], .idle)
    else ([], ⟨s.need - 1, s.value * 64 + (n - 0x80), 0x80, 0xBF⟩)
  else (replacement :: (start n).1, (start n).2)

def run (s : State) : Bytes → Text
  | [] => if s.need = 0 then [] else [replacement]
  | b :: bs => (step s b.toNat).1 ++ run (step s b.toNat).2 bs

def decode (bs : Bytes) : Text := run .idle bs

theorem run_nil (s : State) : run s [] = if s.need = 0 then [] else [replacement] := rfl

theorem run_cons (s : State) (b : UInt8) (bs : Bytes) :
    run s (b :: bs) = (step s b.toNat).1 ++ run (step s b.toNat).2 bs := rfl

/-- A continuation byte, `0x80` to `0xBF`. -/
def IsTail (b : UInt8) : Prop := 0x80 ≤ b.toNat ∧ b.toNat < 0xC0

instance : DecidablePred IsTail := fun _ => inferInstanceAs (Decidable (_ ∧ _))

/-- `bs` may follow any bytes without changing how those are read. -/
def AtBoundary (bs : Bytes) : Prop := ∀ b ∈ bs.head?, ¬ IsTail b

instance : DecidablePred AtBoundary
  | [] => isTrue (by simp [AtBoundary])
  | b :: _ => decidable_of_iff (¬ IsTail b) (by simp [AtBoundary])

/-- The window of the next byte holds tails only and excludes overlong forms. -/
structure State.Ok (s : State) : Prop where
  lo : s.need ≠ 0 → 0x80 ≤ s.lo
  hi : s.need ≠ 0 → s.hi ≤ 0xBF
  last : s.need = 1 → 2 ≤ s.value
  mid : 2 ≤ s.need → 2 ≤ s.value * 64 + (s.lo - 0x80)

theorem State.idle_ok : State.idle.Ok := by
  constructor <;> simp [State.idle]

theorem start_ok (n : ℕ) : (start n).2.Ok := by
  unfold start
  split_ifs <;> first | exact State.idle_ok | constructor <;> simp <;> omega

theorem step_ok {s : State} (hs : s.Ok) (n : ℕ) : (step s n).2.Ok := by
  unfold step
  split_ifs with h0 hin h1
  · exact start_ok n
  · exact State.idle_ok
  · have hm := hs.mid (by omega)
    constructor <;> simp <;> omega
  · exact start_ok n

theorem step_of_not_tail {s : State} (hs : s.Ok) {b : UInt8} (hb : ¬ IsTail b) :
    step s b.toNat = (run s [] ++ (start b.toNat).1, (start b.toNat).2) := by
  by_cases h0 : s.need = 0
  · simp [step, run, h0]
  · have hlo := hs.lo h0
    have hhi := hs.hi h0
    have hout : ¬ (s.lo ≤ b.toNat ∧ b.toNat ≤ s.hi) := by
      intro h
      exact hb ⟨by omega, by omega⟩
    simp [step, run, h0, hout]

theorem run_append {s : State} (hs : s.Ok) (x : Bytes) {y : Bytes} (hy : AtBoundary y) :
    run s (x ++ y) = run s x ++ decode y := by
  induction x generalizing s with
  | nil =>
    cases y with
    | nil => simp [run, decode, State.idle]
    | cons b y =>
      have hb : ¬ IsTail b := hy b (by simp)
      simp only [List.nil_append, decode, run_cons, step_of_not_tail hs hb,
        step_of_not_tail State.idle_ok hb, List.append_assoc]
      simp [run_nil, State.idle]
  | cons b x ih =>
    simp only [List.cons_append, run, List.append_assoc]
    rw [ih (step_ok hs _)]

theorem decode_append (x : Bytes) {y : Bytes} (hy : AtBoundary y) :
    decode (x ++ y) = decode x ++ decode y :=
  run_append State.idle_ok x hy

@[simp] theorem decode_nil : decode [] = [] := rfl

theorem decode_tails {bs : Bytes} (h : ∀ b ∈ bs, IsTail b) :
    decode bs = List.replicate bs.length replacement := by
  induction bs with
  | nil => rfl
  | cons b bs ih =>
    have hs : start b.toNat = ([replacement], .idle) := by
      have hb := h b (by simp)
      unfold start
      rw [if_neg (by unfold IsTail at hb; omega), if_pos (by unfold IsTail at hb; omega)]
    have hr := ih (fun c hc => h c (by simp [hc]))
    simp only [decode, run_cons, step, State.idle, if_pos, hs] at hr ⊢
    simp [hr, List.replicate_succ]

theorem start_open {n : ℕ} (h : 0x80 ≤ n) : (start n).1 ++ run (start n).2 [] = [replacement] := by
  unfold start
  split_ifs <;> first | rfl | omega

theorem decode_byte (b : UInt8) :
    decode [b] = if b.toNat < 0x80 then [Char.ofNat b.toNat] else [replacement] := by
  change (start b.toNat).1 ++ run (start b.toNat).2 [] = _
  split_ifs with h
  · rw [start, if_pos h]
    rfl
  · exact start_open (Nat.not_lt.1 h)

/-! ## Where ASCII characters come from -/

def Wide (c : Char) : Prop := c.toNat = 0 ∨ 0x80 ≤ c.toNat

theorem replacement_wide : Wide replacement := Or.inr (by decide)

theorem toNat_ofNat (n : ℕ) : (Char.ofNat n).toNat = if n.isValidChar then n else 0 := by
  unfold Char.ofNat
  split_ifs <;> rfl

theorem ofNat_wide {n : ℕ} (h : 0x80 ≤ n) : Wide (Char.ofNat n) := by
  by_cases hv : n.isValidChar
  · exact Or.inr (by rw [toNat_ofNat, if_pos hv]; exact h)
  · exact Or.inl (by rw [toNat_ofNat, if_neg hv])

theorem start_shape (n : ℕ) :
    n < 0x80 ∧ start n = ([Char.ofNat n], .idle) ∨
      (∀ x ∈ (start n).1, Wide x) ∧ ((start n).1 = [] → (start n).2.need ≠ 0) := by
  unfold start
  split_ifs <;> simp_all [replacement_wide]

theorem step_shape {s : State} (hs : s.Ok) (n : ℕ) :
    (∃ w, (∀ x ∈ w, Wide x) ∧ (s.need ≠ 0 → w ≠ []) ∧ n < 0x80 ∧
      step s n = (w ++ [Char.ofNat n], .idle)) ∨
    (∀ x ∈ (step s n).1, Wide x) ∧ ((step s n).1 = [] → (step s n).2.need ≠ 0) := by
  by_cases h0 : s.need = 0
  · simp only [step, h0, if_true]
    rcases start_shape n with ⟨hn, h⟩ | h
    · exact Or.inl ⟨[], by simp, by simp, hn, by rw [h]; rfl⟩
    · exact Or.inr h
  · have hlo := hs.lo h0
    have hlast := hs.last
    simp only [step, h0, if_false]
    split_ifs with hin h1
    · have hv := hlast h1
      exact Or.inr ⟨by simpa using ofNat_wide (by omega), by simp⟩
    · exact Or.inr ⟨by simp, fun _ => by simp only; omega⟩
    · rcases start_shape n with ⟨hn, h⟩ | h
      · exact Or.inl ⟨[replacement], by simp [replacement_wide], by simp, hn, by rw [h]; rfl⟩
      · exact Or.inr ⟨by simpa [replacement_wide] using h.1, by simp⟩

theorem run_nil_wide (s : State) : ∀ x ∈ run s [], Wide x := by
  rw [run_nil]
  split_ifs <;> simp [replacement_wide]

theorem not_wide {c : Char} (h0 : 0 < c.toNat) (h1 : c.toNat < 0x80) : ¬ Wide c := by
  unfold Wide
  omega

theorem toNat_of_ofNat {n : ℕ} {c : Char} (hn : n < 0x80) (h : Char.ofNat n = c) :
    n = c.toNat := by
  rw [← h, toNat_ofNat, if_pos (Or.inl (by omega))]

theorem run_head {s : State} (hs : s.Ok) {bs : Bytes} {c : Char} (hc : ¬ Wide c)
    (h : (run s bs).head? = some c) : s.need = 0 ∧ ∃ b, bs.head? = some b ∧ b.toNat = c.toNat := by
  induction bs generalizing s with
  | nil => exact absurd (run_nil_wide s c (List.mem_of_mem_head? h)) hc
  | cons b bs ih =>
    rw [run_cons, List.head?_append] at h
    rcases step_shape hs b.toNat with ⟨w, hw, hneed, hb, hstep⟩ | ⟨hw, hneed⟩
    · rw [hstep] at h
      cases w with
      | nil =>
        refine ⟨by_contra fun h0 => hneed h0 rfl, b, rfl, toNat_of_ofNat hb (by simpa using h)⟩
      | cons x w =>
        obtain rfl : x = c := by simpa using h
        exact absurd (hw x (by simp)) hc
    · rcases hout : (step s b.toNat).1 with _ | ⟨x, w⟩
      · rw [hout] at h
        exact absurd (ih (step_ok hs _) (by simpa using h)).1 (hneed hout)
      · obtain rfl : x = c := by simpa [hout] using h
        exact absurd (hw x (by simp [hout])) hc

theorem run_ne_nil {s : State} (hs : s.Ok) {bs : Bytes} (h : s.need ≠ 0 ∨ bs ≠ []) :
    run s bs ≠ [] := by
  induction bs generalizing s with
  | nil => simpa [run_nil] using h
  | cons b bs ih =>
    rw [run_cons]
    rcases step_shape hs b.toNat with ⟨w, hw, hneed, hb, hstep⟩ | ⟨hw, hneed⟩
    · simp [hstep]
    · intro hnil
      rw [List.append_eq_nil_iff] at hnil
      exact ih (step_ok hs _) (Or.inl (hneed hnil.1)) hnil.2

theorem run_getLast {s : State} (hs : s.Ok) {bs : Bytes} {c : Char} (hc : ¬ Wide c)
    (h : (run s bs).getLast? = some c) : ∃ b, bs.getLast? = some b ∧ b.toNat = c.toNat := by
  induction bs generalizing s with
  | nil => exact absurd (run_nil_wide s c (List.mem_of_mem_getLast? h)) hc
  | cons b bs ih =>
    cases bs with
    | cons d bs =>
      rw [run_cons, List.getLast?_append_of_ne_nil _ (run_ne_nil (step_ok hs _) (by simp))] at h
      simpa using ih (step_ok hs _) h
    | nil =>
      refine ⟨b, rfl, ?_⟩
      rw [run_cons] at h
      rcases step_shape hs b.toNat with ⟨w, hw, hneed, hb, hstep⟩ | ⟨hw, hneed⟩
      · rw [hstep] at h
        exact toNat_of_ofNat hb (by simpa [run_nil, State.idle] using h)
      · rcases List.mem_append.1 (List.mem_of_mem_getLast? h) with hm | hm
        · exact absurd (hw c hm) hc
        · exact absurd (run_nil_wide _ c hm) hc

/-- The first decoded character is ASCII only if the first byte is that character. -/
theorem decode_head {bs : Bytes} {c : Char} (h0 : 0 < c.toNat) (h1 : c.toNat < 0x80)
    (h : (decode bs).head? = some c) : ∃ b, bs.head? = some b ∧ b.toNat = c.toNat :=
  (run_head State.idle_ok (not_wide h0 h1) h).2

theorem decode_getLast {bs : Bytes} {c : Char} (h0 : 0 < c.toNat) (h1 : c.toNat < 0x80)
    (h : (decode bs).getLast? = some c) : ∃ b, bs.getLast? = some b ∧ b.toNat = c.toNat :=
  run_getLast State.idle_ok (not_wide h0 h1) h

/-! ## The bytes of one character -/

theorem toNat_lt (c : Char) : c.val.toNat < 0xD800 ∨ 0xDFFF < c.val.toNat ∧ c.val.toNat < 0x110000 :=
  c.valid

theorem toNat_byte {n : ℕ} (h : n < 256) : (UInt8.ofNat n).toNat = n := by
  simp [Nat.mod_eq_of_lt h]

theorem encodeChar_one {c : Char} (h : c.val.toNat < 0x80) :
    String.utf8EncodeChar c = [UInt8.ofNat c.val.toNat] := by
  simp only [String.utf8EncodeChar]
  rw [if_pos (by omega)]

theorem encodeChar_two {c : Char} (h1 : 0x80 ≤ c.val.toNat) (h2 : c.val.toNat < 0x800) :
    String.utf8EncodeChar c = [UInt8.ofNat (c.val.toNat / 64 + 0xC0),
      UInt8.ofNat (c.val.toNat % 64 + 0x80)] := by
  simp only [String.utf8EncodeChar]
  rw [if_neg (by omega), if_pos (by omega), Nat.mod_eq_of_lt (by omega : c.val.toNat / 64 < 0x20)]

theorem encodeChar_three {c : Char} (h1 : 0x800 ≤ c.val.toNat) (h2 : c.val.toNat < 0x10000) :
    String.utf8EncodeChar c = [UInt8.ofNat (c.val.toNat / 4096 + 0xE0),
      UInt8.ofNat (c.val.toNat / 64 % 64 + 0x80), UInt8.ofNat (c.val.toNat % 64 + 0x80)] := by
  simp only [String.utf8EncodeChar]
  rw [if_neg (by omega), if_neg (by omega), if_pos (by omega),
    Nat.mod_eq_of_lt (by omega : c.val.toNat / 4096 < 0x10)]

theorem encodeChar_four {c : Char} (h1 : 0x10000 ≤ c.val.toNat) :
    String.utf8EncodeChar c = [UInt8.ofNat (c.val.toNat / 262144 + 0xF0),
      UInt8.ofNat (c.val.toNat / 4096 % 64 + 0x80), UInt8.ofNat (c.val.toNat / 64 % 64 + 0x80),
      UInt8.ofNat (c.val.toNat % 64 + 0x80)] := by
  have hv := toNat_lt c
  simp only [String.utf8EncodeChar]
  rw [if_neg (by omega), if_neg (by omega), if_neg (by omega),
    Nat.mod_eq_of_lt (by omega : c.val.toNat / 262144 < 0x08)]

theorem step_idle (n : ℕ) : step .idle n = start n := rfl

theorem step_mid (need value lo hi n : ℕ) (h2 : 2 ≤ need) (hl : lo ≤ n) (hh : n ≤ hi) :
    step ⟨need, value, lo, hi⟩ n = ([], ⟨need - 1, value * 64 + (n - 0x80), 0x80, 0xBF⟩) := by
  simp only [step]
  rw [if_neg (by omega), if_pos ⟨hl, hh⟩, if_neg (by omega)]

theorem step_last (value lo hi n : ℕ) (hl : lo ≤ n) (hh : n ≤ hi) :
    step ⟨1, value, lo, hi⟩ n = ([Char.ofNat (value * 64 + (n - 0x80))], .idle) := by
  simp only [step]
  rw [if_neg (by omega), if_pos ⟨hl, hh⟩, if_pos trivial]

theorem run_mid (need value lo hi : ℕ) :
    run ⟨need + 1, value, lo, hi⟩ [] = [replacement] := rfl

theorem start_one {n : ℕ} (h : n < 0x80) : start n = ([Char.ofNat n], .idle) := if_pos h

theorem start_two {m : ℕ} (h1 : 2 ≤ m) (h2 : m < 0x20) :
    start (m + 0xC0) = ([], ⟨1, m, 0x80, 0xBF⟩) := by
  unfold start
  rw [if_neg (by omega), if_neg (by omega), if_pos (by omega), Nat.add_sub_cancel]

theorem start_three {m : ℕ} (h : m < 0x10) :
    start (m + 0xE0) =
      ([], ⟨2, m, if m = 0 then 0xA0 else 0x80, if m = 13 then 0x9F else 0xBF⟩) := by
  unfold start
  rw [if_neg (by omega), if_neg (by omega), if_neg (by omega), if_pos (by omega),
    Nat.add_sub_cancel]
  simp

theorem start_four {m : ℕ} (h : m < 5) :
    start (m + 0xF0) =
      ([], ⟨3, m, if m = 0 then 0x90 else 0x80, if m = 4 then 0x8F else 0xBF⟩) := by
  unfold start
  rw [if_neg (by omega), if_neg (by omega), if_neg (by omega), if_neg (by omega),
    if_pos (by omega), Nat.add_sub_cancel]
  simp

theorem ofNat_eq {c : Char} {n : ℕ} (h : n = c.val.toNat) : Char.ofNat n = c := by
  subst h
  exact Char.ofNat_toNat c

theorem decode_char_two {c : Char} (h1 : 0x80 ≤ c.val.toNat) (h2 : c.val.toNat < 0x800)
    (rest : Bytes) : decode (String.utf8EncodeChar c ++ rest) = c :: decode rest ∧
      ∀ k, 0 < k → k < 2 → decode ((String.utf8EncodeChar c).take k) = [replacement] := by
  have hs1 := start_two (m := c.val.toNat / 64) (by omega) (by omega)
  have hs2 := step_last (c.val.toNat / 64) 0x80 0xBF (c.val.toNat % 64 + 0x80) (by omega) (by omega)
  rw [ofNat_eq (c := c) (by omega)] at hs2
  rw [encodeChar_two h1 h2]
  constructor
  · simp only [decode, List.cons_append, List.nil_append, run_cons,
      toNat_byte (show c.val.toNat / 64 + 0xC0 < 256 by omega),
      toNat_byte (show c.val.toNat % 64 + 0x80 < 256 by omega), step_idle, hs1, hs2]
  · intro k hk0 hk
    have : k = 1 := by omega
    subst this
    simp only [List.take_succ_cons, List.take_zero, List.nil_append, decode, run_cons,
      toNat_byte (show c.val.toNat / 64 + 0xC0 < 256 by omega), step_idle, hs1, run_mid]

theorem decode_char_three {c : Char} (h1 : 0x800 ≤ c.val.toNat) (h2 : c.val.toNat < 0x10000)
    (rest : Bytes) : decode (String.utf8EncodeChar c ++ rest) = c :: decode rest ∧
      ∀ k, 0 < k → k < 3 → decode ((String.utf8EncodeChar c).take k) = [replacement] := by
  have hv := toNat_lt c
  have hs1 := start_three (m := c.val.toNat / 4096) (by omega)
  have hs2 := step_mid 2 (c.val.toNat / 4096) (if c.val.toNat / 4096 = 0 then 0xA0 else 0x80)
    (if c.val.toNat / 4096 = 13 then 0x9F else 0xBF) (c.val.toNat / 64 % 64 + 0x80) (by omega) (by split_ifs <;> omega)
    (by split_ifs <;> omega)
  have hs3 := step_last (c.val.toNat / 4096 * 64 + (c.val.toNat / 64 % 64 + 0x80 - 0x80)) 0x80 0xBF
    (c.val.toNat % 64 + 0x80) (by omega) (by omega)
  rw [ofNat_eq (c := c) (by omega)] at hs3
  have b0 := toNat_byte (show c.val.toNat / 4096 + 0xE0 < 256 by omega)
  have b1 := toNat_byte (show c.val.toNat / 64 % 64 + 0x80 < 256 by omega)
  have b2 := toNat_byte (show c.val.toNat % 64 + 0x80 < 256 by omega)
  rw [encodeChar_three h1 h2]
  constructor
  · simp only [decode, List.cons_append, List.nil_append, run_cons, b0, b1, b2, step_idle, hs1,
      hs2, hs3]
  · intro k hk0 hk
    have : k = 1 ∨ k = 2 := by omega
    rcases this with rfl | rfl
    · simp only [List.take_succ_cons, List.take_zero, List.nil_append, decode, run_cons, b0, step_idle,
        hs1, run_mid]
    · simp only [List.take_succ_cons, List.take_zero, List.nil_append, decode, run_cons, b0, b1,
        step_idle, hs1, hs2, run_mid]

theorem decode_char_four {c : Char} (h1 : 0x10000 ≤ c.val.toNat) (rest : Bytes) :
    decode (String.utf8EncodeChar c ++ rest) = c :: decode rest ∧
      ∀ k, 0 < k → k < 4 → decode ((String.utf8EncodeChar c).take k) = [replacement] := by
  have hv := toNat_lt c
  have hs1 := start_four (m := c.val.toNat / 262144) (by omega)
  have hs2 := step_mid 3 (c.val.toNat / 262144) (if c.val.toNat / 262144 = 0 then 0x90 else 0x80)
    (if c.val.toNat / 262144 = 4 then 0x8F else 0xBF) (c.val.toNat / 4096 % 64 + 0x80) (by omega) (by split_ifs <;> omega)
    (by split_ifs <;> omega)
  have hs3 := step_mid 2 (c.val.toNat / 262144 * 64 + (c.val.toNat / 4096 % 64 + 0x80 - 0x80)) 0x80 0xBF
    (c.val.toNat / 64 % 64 + 0x80) (by omega) (by omega) (by omega)
  have hs4 := step_last ((c.val.toNat / 262144 * 64 + (c.val.toNat / 4096 % 64 + 0x80 - 0x80)) * 64 +
    (c.val.toNat / 64 % 64 + 0x80 - 0x80)) 0x80 0xBF (c.val.toNat % 64 + 0x80) (by omega) (by omega)
  rw [ofNat_eq (c := c) (by omega)] at hs4
  have b0 := toNat_byte (show c.val.toNat / 262144 + 0xF0 < 256 by omega)
  have b1 := toNat_byte (show c.val.toNat / 4096 % 64 + 0x80 < 256 by omega)
  have b2 := toNat_byte (show c.val.toNat / 64 % 64 + 0x80 < 256 by omega)
  have b3 := toNat_byte (show c.val.toNat % 64 + 0x80 < 256 by omega)
  rw [encodeChar_four h1]
  constructor
  · simp only [decode, List.cons_append, List.nil_append, run_cons, b0, b1, b2, b3, step_idle,
      hs1, hs2, hs3, hs4]
  · intro k hk0 hk
    have : k = 1 ∨ k = 2 ∨ k = 3 := by omega
    rcases this with rfl | rfl | rfl
    · simp only [List.take_succ_cons, List.take_zero, List.nil_append, decode, run_cons, b0, step_idle,
        hs1, run_mid]
    · simp only [List.take_succ_cons, List.take_zero, List.nil_append, decode, run_cons, b0, b1,
        step_idle, hs1, hs2, run_mid]
    · simp only [List.take_succ_cons, List.take_zero, List.nil_append, decode, run_cons, b0, b1,
        b2, step_idle, hs1, hs2, hs3, run_mid]

theorem decode_char (c : Char) (rest : Bytes) :
    decode (String.utf8EncodeChar c ++ rest) = c :: decode rest := by
  by_cases h1 : c.val.toNat < 0x80
  · rw [encodeChar_one h1]
    simp only [decode, List.cons_append, List.nil_append, run_cons,
      toNat_byte (show c.val.toNat < 256 by omega), step_idle, start_one h1, ofNat_eq rfl]
  by_cases h2 : c.val.toNat < 0x800
  · exact (decode_char_two (by omega) h2 rest).1
  by_cases h3 : c.val.toNat < 0x10000
  · exact (decode_char_three (by omega) h3 rest).1
  · exact (decode_char_four (by omega) rest).1

theorem decode_char_take (c : Char) {k : ℕ} (h0 : 0 < k)
    (hk : k < (String.utf8EncodeChar c).length) :
    decode ((String.utf8EncodeChar c).take k) = [replacement] := by
  by_cases h1 : c.val.toNat < 0x80
  · rw [encodeChar_one h1] at hk
    simp at hk
    omega
  by_cases h2 : c.val.toNat < 0x800
  · rw [encodeChar_two (by omega) h2] at hk
    exact (decode_char_two (by omega) h2 []).2 k h0 hk
  by_cases h3 : c.val.toNat < 0x10000
  · rw [encodeChar_three (by omega) h3] at hk
    exact (decode_char_three (by omega) h3 []).2 k h0 hk
  · rw [encodeChar_four (c := c) (by omega)] at hk
    exact (decode_char_four (c := c) (by omega) []).2 k h0 hk

theorem decode_encode_append (cs : Text) (rest : Bytes) :
    decode (encode cs ++ rest) = cs ++ decode rest := by
  induction cs with
  | nil => rfl
  | cons c cs ih =>
    simp only [encode, List.flatMap_cons, List.append_assoc] at ih ⊢
    rw [decode_char, ih, List.cons_append]

theorem decode_encode (cs : Text) : decode (encode cs) = cs := by
  simpa using decode_encode_append cs []

theorem encode_append (x y : Text) : encode (x ++ y) = encode x ++ encode y := by
  simp [encode]

theorem isTail_ofNat {m : ℕ} (h : m < 64) : IsTail (UInt8.ofNat (m + 0x80)) := by
  unfold IsTail
  rw [toNat_byte (by omega)]
  omega

theorem not_isTail_ofNat {n : ℕ} (h : n < 256) (h' : n < 0x80 ∨ 0xC0 ≤ n) :
    ¬ IsTail (UInt8.ofNat n) := by
  unfold IsTail
  rw [toNat_byte h]
  omega

theorem encodeChar_shape (c : Char) : ∃ b ts, String.utf8EncodeChar c = b :: ts ∧ ¬ IsTail b ∧
    ∀ t ∈ ts, IsTail t := by
  have hv := toNat_lt c
  have hlow : ∀ n : ℕ, IsTail (UInt8.ofNat (n % 64 + 0x80)) := fun n =>
    isTail_ofNat (Nat.mod_lt _ (by omega))
  by_cases h1 : c.val.toNat < 0x80
  · exact ⟨_, _, encodeChar_one h1, not_isTail_ofNat (by omega) (by omega), by simp⟩
  by_cases h2 : c.val.toNat < 0x800
  · exact ⟨_, _, encodeChar_two (by omega) h2, not_isTail_ofNat (by omega) (by omega),
      List.forall_mem_singleton.2 (hlow _)⟩
  by_cases h3 : c.val.toNat < 0x10000
  · exact ⟨_, _, encodeChar_three (by omega) h3, not_isTail_ofNat (by omega) (by omega),
      List.forall_mem_cons.2 ⟨hlow _, List.forall_mem_singleton.2 (hlow _)⟩⟩
  · exact ⟨_, _, encodeChar_four (by omega), not_isTail_ofNat (by omega) (by omega),
      List.forall_mem_cons.2 ⟨hlow _, List.forall_mem_cons.2
        ⟨hlow _, List.forall_mem_singleton.2 (hlow _)⟩⟩⟩

theorem tail_ge {n : ℕ} (h : n < 256) (h' : 0x80 ≤ n) {b : UInt8} (hb : b = UInt8.ofNat n) :
    ¬ b.toNat < 0x80 := by
  rw [hb, toNat_byte h]
  omega

theorem mem_utf8 {c : Char} {b : UInt8} (hm : b ∈ String.utf8EncodeChar c) (hb : b.toNat < 0x80) :
    c.toNat = b.toNat := by
  have hv := toNat_lt c
  by_cases h1 : c.val.toNat < 0x80
  · rw [encodeChar_one h1, List.mem_singleton] at hm
    rw [hm, toNat_byte (by omega)]
    rfl
  by_cases h2 : c.val.toNat < 0x800
  · rw [encodeChar_two (by omega) h2] at hm
    simp only [List.mem_cons, List.not_mem_nil, or_false] at hm
    rcases hm with hm | hm <;> exact absurd hb (tail_ge (by omega) (by omega) hm)
  by_cases h3 : c.val.toNat < 0x10000
  · rw [encodeChar_three (by omega) h3] at hm
    simp only [List.mem_cons, List.not_mem_nil, or_false] at hm
    rcases hm with hm | hm | hm <;> exact absurd hb (tail_ge (by omega) (by omega) hm)
  · rw [encodeChar_four (by omega)] at hm
    simp only [List.mem_cons, List.not_mem_nil, or_false] at hm
    rcases hm with hm | hm | hm | hm <;> exact absurd hb (tail_ge (by omega) (by omega) hm)

theorem mem_encode {cs : Text} {b : UInt8} (hm : b ∈ encode cs) (hb : b.toNat < 0x80) :
    ∃ c ∈ cs, c.toNat = b.toNat := by
  rw [encode, List.mem_flatMap] at hm
  obtain ⟨c, hc, hm⟩ := hm
  exact ⟨c, hc, mem_utf8 hm hb⟩

theorem encode_ascii {cs : Text} (h : ∀ c ∈ cs, c.toNat < 0x80) {b : UInt8} (hb : b ∈ encode cs) :
    b.toNat < 0x80 := by
  rw [encode, List.mem_flatMap] at hb
  obtain ⟨c, hc, hb⟩ := hb
  have hlt : c.val.toNat < 0x80 := h c hc
  rw [encodeChar_one hlt, List.mem_singleton] at hb
  rw [hb, toNat_byte (by omega)]
  exact hlt

theorem atBoundary_encode_append (c : Char) (cs : Text) (rest : Bytes) :
    AtBoundary (encode (c :: cs) ++ rest) := by
  obtain ⟨b, ts, h, hb, -⟩ := encodeChar_shape c
  intro x hx
  simp only [encode, List.flatMap_cons, h, List.cons_append, List.head?_cons,
    Option.mem_some_iff] at hx
  exact hx ▸ hb

end Varsten.Python.Utf8
