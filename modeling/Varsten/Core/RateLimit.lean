import Varsten.Machine.Quota
import Varsten.Machine.TtlStore

/-!
# The rate limiters

The two backends behind `allow`. One keeps a bucket and a count for each key and
stops counting when it denies; the other counts every call under a key of its own
for each bucket, which expires. On a clock that does not go back both follow the
quota of a key in a bucket. A limit that is not positive is no limit.
-/

namespace Varsten.Core.RateLimit

open Machine
open Machine.Quota (answers admitted room seen ofClass)

/-- A call and the time it reads. -/
structure Call where
  key : String
  now : ℚ

/-- `int(now // window_seconds)`. -/
def bucket (window : ℕ+) (now : ℚ) : ℤ := ⌊now / window⌋

section

variable (window : ℕ+) (limit : String → ℤ)

abbrev Counts := String → Option (ℤ × ℕ)

def inMemoryAllow (counts : Counts) (call : Call) : Counts × Bool :=
  if limit call.key ≤ 0 then (counts, true)
  else
    let now := bucket window call.now
    match counts call.key with
    | none => (Function.update counts call.key (some (now, 1)), true)
    | some (windowBucket, count) =>
      if windowBucket ≠ now then (Function.update counts call.key (some (now, 1)), true)
      else if limit call.key ≤ count then (counts, false)
      else (Function.update counts call.key (some (windowBucket, count + 1)), true)

abbrev Store := TtlStore.Store String ℕ ℚ

def keyPrefix : String := "varsten:rl:"

def redisKey (key : String) (bucket : ℤ) : String :=
  keyPrefix ++ key ++ ":" ++ bucket.repr

/-- The script: `INCR`, and `EXPIRE` on the first hit. -/
def fixedWindow (store : Store) (redisKey : String) (now : ℚ) : Store × ℕ :=
  match TtlStore.live store redisKey now with
  | none => (TtlStore.set store redisKey 1 (some (window : ℚ)) now, 1)
  | some current =>
    (Function.update store redisKey ((store redisKey).map fun e => (current + 1, e.2)),
      current + 1)

def redisAllow (store : Store) (call : Call) : Store × Bool :=
  if limit call.key ≤ 0 then (store, true)
  else
    let hit := fixedWindow window store (redisKey call.key (bucket window call.now)) call.now
    (hit.1, decide ((hit.2 : ℤ) ≤ limit call.key))

/-! ## The quota of a key in a bucket -/

def classOf (call : Call) : String × ℤ := (call.key, bucket window call.now)

def quotaOf (cls : String × ℤ) : Option ℕ :=
  if limit cls.1 ≤ 0 then none else some (limit cls.1).toNat

def counted (counts : Counts) (key : String) (b : ℤ) : ℕ :=
  match counts key with
  | some (windowBucket, count) => if windowBucket = b then count else 0
  | none => 0

/-- In the bucket the clock has reached, and later ones, the memory counts the admitted calls. -/
def Remembers (past : List Call) (counts : Counts) : Prop :=
  ∀ key b, 0 < limit key → (∀ c ∈ past, bucket window c.now ≤ b) →
    counted counts key b = min (limit key).toNat (seen (classOf window) (key, b) past)

/-- There the store counts all calls, and lets no count go before the bucket is over. -/
def Stores (past : List Call) (store : Store) : Prop :=
  ∀ key b, 0 < limit key → (∀ c ∈ past, bucket window c.now ≤ b) →
    match store (redisKey key b) with
    | none => seen (classOf window) (key, b) past = 0
    | some (count, expiresAt) => count = seen (classOf window) (key, b) past ∧
        ∃ t, expiresAt = some t ∧ (b + 1) * (window : ℚ) ≤ t

end

variable {window : ℕ+} {limit : String → ℤ} {past : List Call} {call : Call} {counts : Counts}
  {store : Store} {key : String} {b : ℤ}

theorem bucket_mono {x y : ℚ} (h : x ≤ y) : bucket window x ≤ bucket window y := by
  apply Int.floor_le_floor
  gcongr

theorem lt_bucket_end (now : ℚ) : now < (bucket window now + 1) * (window : ℚ) := by
  have hpos : (0 : ℚ) < (window : ℚ) := by exact_mod_cast window.pos
  rw [← div_lt_iff₀ hpos]
  exact Int.lt_floor_add_one _

theorem bucket_start_le (window : ℕ+) (now : ℚ) : bucket window now * (window : ℚ) ≤ now := by
  have hpos : (0 : ℚ) < (window : ℚ) := by exact_mod_cast window.pos
  rw [← le_div_iff₀ hpos]
  exact Int.floor_le _

theorem bucket_past (h : ∀ c ∈ past, c.now ≤ call.now) :
    ∀ c ∈ past, bucket window c.now ≤ bucket window call.now :=
  fun c hc => bucket_mono (h c hc)

theorem forall_snoc {p : Call → Prop} (h : ∀ c ∈ past ++ [call], p c) :
    (∀ c ∈ past, p c) ∧ p call :=
  ⟨fun c hc => h c (List.mem_append_left _ hc), h call (by simp)⟩

theorem seen_later (h : ∀ c ∈ past ++ [call], bucket window c.now ≤ b)
    (hb : bucket window call.now ≠ b) (hpast : ∀ c ∈ past, c.now ≤ call.now) :
    seen (classOf window) (key, b) past = 0 := by
  have hlt : bucket window call.now < b := lt_of_le_of_ne (forall_snoc h).2 hb
  apply Quota.seen_eq_zero
  intro c hc heq
  have hcb : bucket window c.now = b := congrArg Prod.snd heq
  exact absurd (hcb ▸ bucket_past hpast c hc) (not_le.2 hlt)

theorem colon_notMem_natRepr (n : ℕ) : ':' ∉ n.repr.toList := by
  intro h
  rw [Nat.toList_repr] at h
  exact absurd (Nat.isDigit_of_mem_toDigits (by norm_num) (by norm_num) h) (by decide)

theorem colon_notMem_repr (n : ℤ) : ':' ∉ n.repr.toList := by
  cases n with
  | ofNat n => exact colon_notMem_natRepr n
  | negSucc n =>
    have h := colon_notMem_natRepr (n + 1)
    simpa [Int.repr] using h

theorem append_colon_inj {xs ys us vs : List Char} (hu : ':' ∉ us) (hv : ':' ∉ vs)
    (h : xs ++ ':' :: us = ys ++ ':' :: vs) : xs = ys ∧ us = vs := by
  rcases List.append_eq_append_iff.1 h with ⟨ws, rfl, hw⟩ | ⟨ws, rfl, hw⟩
  · cases ws with
    | nil => exact ⟨(List.append_nil _).symm, (List.cons.inj hw).2⟩
    | cons w ws =>
      have hmem : ':' ∈ us := by
        rw [(List.cons.inj hw).2]
        simp
      exact absurd hmem hu
  · cases ws with
    | nil => exact ⟨List.append_nil _, (List.cons.inj hw).2.symm⟩
    | cons w ws =>
      have hmem : ':' ∈ vs := by
        rw [(List.cons.inj hw).2]
        simp
      exact absurd hmem hv

theorem redisKey_inj {k l : String} {b c : ℤ} (h : redisKey k b = redisKey l c) :
    k = l ∧ b = c := by
  have hlist := congrArg String.toList h
  simp only [redisKey, String.toList_append, List.append_assoc] at hlist
  obtain ⟨hkey, hbucket⟩ := append_colon_inj (colon_notMem_repr b) (colon_notMem_repr c)
    (List.append_cancel_left hlist)
  exact ⟨String.toList_inj.1 hkey, Int.repr_inj.1 (String.toList_inj.1 hbucket)⟩

/-! ## One call -/

theorem quotaOf_some (h : 0 < limit key) :
    quotaOf limit (key, b) = some (limit key).toNat := if_neg (not_le.2 h)

theorem quotaOf_none (h : limit key ≤ 0) : quotaOf limit (key, b) = none := if_pos h

theorem room_quotaOf (h : 0 < limit key) (n : ℕ) :
    room (quotaOf limit (key, b)) n = decide (n < (limit key).toNat) := by
  rw [quotaOf_some h]
  rfl

theorem room_unlimited (h : limit key ≤ 0) (n : ℕ) :
    room (quotaOf limit (key, b)) n = true := by
  rw [quotaOf_none h]
  rfl

theorem remembers_update {n : ℕ} (hpast : ∀ c ∈ past, c.now ≤ call.now)
    (hinv : Remembers window limit past counts)
    (hcounts : counted (Function.update counts call.key (some (bucket window call.now, n)))
      call.key (bucket window call.now) = min (limit call.key).toNat
        (seen (classOf window) (classOf window call) past + 1)) :
    Remembers window limit (past ++ [call])
      (Function.update counts call.key (some (bucket window call.now, n))) := by
  intro key b hlimit hb
  by_cases hkey : call.key = key
  · subst hkey
    by_cases hbucket : bucket window call.now = b
    · subst hbucket
      have hseen : seen (classOf window) (classOf window call) (past ++ [call]) =
          seen (classOf window) (classOf window call) past + 1 := Quota.seen_snoc_self rfl past
      exact hcounts.trans (congrArg _ hseen.symm)
    · rw [Quota.seen_snoc_of_ne (fun h => hbucket (congrArg Prod.snd h)),
        seen_later hb hbucket hpast, counted, Function.update_self]
      simp [hbucket]
  · have hne : classOf window call ≠ (key, b) := fun h => hkey (congrArg Prod.fst h)
    have hold := hinv key b hlimit (forall_snoc hb).1
    rw [Quota.seen_snoc_of_ne hne, ← hold, counted, counted,
      Function.update_of_ne (Ne.symm hkey)]

theorem remembers_same (hinv : Remembers window limit past counts)
    (hfull : 0 < limit call.key →
      (limit call.key).toNat ≤ seen (classOf window) (classOf window call) past) :
    Remembers window limit (past ++ [call]) counts := by
  intro key b hlimit hb
  have hold := hinv key b hlimit (forall_snoc hb).1
  by_cases hclass : classOf window call = (key, b)
  · have hkey : call.key = key := congrArg Prod.fst hclass
    have hle := hfull (hkey ▸ hlimit)
    rw [hclass, hkey] at hle
    rw [Quota.seen_snoc_self hclass, hold, min_eq_left hle, min_eq_left (by omega)]
  · rw [Quota.seen_snoc_of_ne hclass, hold]

theorem inMemory_step (hpast : ∀ c ∈ past, c.now ≤ call.now)
    (hinv : Remembers window limit past counts) :
    (inMemoryAllow window limit counts call).2 =
        room (quotaOf limit (classOf window call))
          (seen (classOf window) (classOf window call) past) ∧
      Remembers window limit (past ++ [call]) (inMemoryAllow window limit counts call).1 := by
  rw [inMemoryAllow]
  split_ifs with hlimit
  · exact ⟨(room_unlimited hlimit _).symm, remembers_same hinv fun h => by omega⟩
  · have hpos : 0 < limit call.key := not_le.1 hlimit
    have hcount : counted counts call.key (bucket window call.now) =
        min (limit call.key).toNat (seen (classOf window) (classOf window call) past) :=
      hinv call.key (bucket window call.now) hpos (bucket_past hpast)
    have hroom : ∀ n, room (quotaOf limit (classOf window call)) n =
      decide (n < (limit call.key).toNat) := room_quotaOf hpos
    rw [hroom]
    rw [counted] at hcount
    have fresh : min (limit call.key).toNat
          (seen (classOf window) (classOf window call) past) = 0 →
        true = decide (seen (classOf window) (classOf window call) past <
            (limit call.key).toNat) ∧
          Remembers window limit (past ++ [call]) (Function.update counts call.key
            (some (bucket window call.now, 1))) := by
      intro h
      have hzero : seen (classOf window) (classOf window call) past = 0 := by omega
      refine ⟨by rw [hzero]; exact (decide_eq_true (by omega)).symm, remembers_update hpast hinv ?_⟩
      rw [hzero, counted, Function.update_self]
      dsimp only
      rw [if_pos rfl]
      omega
    cases hentry : counts call.key with
    | none =>
      rw [hentry] at hcount
      exact fresh hcount.symm
    | some entry =>
      obtain ⟨windowBucket, count⟩ := entry
      rw [hentry] at hcount
      dsimp only at hcount ⊢
      by_cases hbucket : windowBucket = bucket window call.now
      · subst hbucket
        rw [if_pos rfl] at hcount
        rw [if_neg (not_not.2 rfl)]
        by_cases hfull : limit call.key ≤ count
        · rw [if_pos hfull]
          have hle : (limit call.key).toNat ≤
              seen (classOf window) (classOf window call) past := by omega
          exact ⟨(decide_eq_false (not_lt.2 hle)).symm, remembers_same hinv fun _ => hle⟩
        · rw [if_neg hfull]
          have hseen : seen (classOf window) (classOf window call) past = count := by omega
          refine ⟨(decide_eq_true (by omega)).symm, remembers_update hpast hinv ?_⟩
          rw [hseen, counted, Function.update_self]
          dsimp only
          rw [if_pos rfl]
          omega
      · rw [if_neg hbucket] at hcount
        rw [if_pos hbucket]
        exact fresh hcount.symm

/-- The script counts a call in its bucket, and the count lasts until the bucket is over. -/
theorem fixedWindow_spec (hpast : ∀ c ∈ past, c.now ≤ call.now)
    (hinv : Stores window limit past store) (hlimit : 0 < limit call.key) :
    ∃ t, (bucket window call.now + 1) * (window : ℚ) ≤ t ∧
      fixedWindow window store (redisKey call.key (bucket window call.now)) call.now =
        (Function.update store (redisKey call.key (bucket window call.now))
          (some (seen (classOf window) (classOf window call) past + 1, some t)),
        seen (classOf window) (classOf window call) past + 1) := by
  have hentry := hinv call.key (bucket window call.now) hlimit (bucket_past hpast)
  have hpos : (0 : ℚ) < (window : ℚ) := by exact_mod_cast window.pos
  rw [fixedWindow, TtlStore.live]
  cases h : store (redisKey call.key (bucket window call.now)) with
  | none =>
    rw [h] at hentry
    have hseen : seen (classOf window) (classOf window call) past = 0 := hentry
    refine ⟨call.now + window, by linarith only [bucket_start_le window call.now], ?_⟩
    rw [hseen, TtlStore.set]
    simp [not_le.2 hpos]
  | some entry =>
    obtain ⟨count, expiresAt⟩ := entry
    rw [h] at hentry
    obtain ⟨hcount, t, rfl, ht⟩ := hentry
    have hseen : count = seen (classOf window) (classOf window call) past := hcount
    have hlive : call.now < t := (lt_bucket_end call.now).trans_le ht
    refine ⟨t, ht, ?_⟩
    simp [not_le.2 hlive, hseen]

theorem stores_same (hinv : Stores window limit past store) (hkey : limit call.key ≤ 0) :
    Stores window limit (past ++ [call]) store := by
  intro key b hlimit hb
  have hne : classOf window call ≠ (key, b) := by
    intro h
    have hsame : call.key = key := congrArg Prod.fst h
    exact absurd hlimit (not_lt.2 (hsame ▸ hkey))
  rw [Quota.seen_snoc_of_ne hne]
  exact hinv key b hlimit (forall_snoc hb).1

theorem stores_update {t : ℚ} (hinv : Stores window limit past store)
    (ht : (bucket window call.now + 1) * (window : ℚ) ≤ t) :
    Stores window limit (past ++ [call])
      (Function.update store (redisKey call.key (bucket window call.now))
        (some (seen (classOf window) (classOf window call) past + 1, some t))) := by
  intro key b hlimit hb
  by_cases hclass : classOf window call = (key, b)
  · obtain ⟨rfl, rfl⟩ := Prod.mk.inj hclass
    rw [Function.update_self, Quota.seen_snoc_self hclass]
    exact ⟨rfl, t, rfl, ht⟩
  · have hkey : redisKey key b ≠ redisKey call.key (bucket window call.now) := by
      intro h
      obtain ⟨rfl, rfl⟩ := redisKey_inj h
      exact hclass rfl
    rw [Function.update_of_ne hkey, Quota.seen_snoc_of_ne hclass]
    exact hinv key b hlimit (forall_snoc hb).1

theorem redis_step (hpast : ∀ c ∈ past, c.now ≤ call.now)
    (hinv : Stores window limit past store) :
    (redisAllow window limit store call).2 =
        room (quotaOf limit (classOf window call))
          (seen (classOf window) (classOf window call) past) ∧
      Stores window limit (past ++ [call]) (redisAllow window limit store call).1 := by
  rw [redisAllow]
  split_ifs with hlimit
  · exact ⟨(room_unlimited hlimit _).symm, stores_same hinv hlimit⟩
  · have hpos : 0 < limit call.key := not_le.1 hlimit
    obtain ⟨t, ht, hhit⟩ := fixedWindow_spec hpast hinv hpos
    dsimp only
    rw [hhit]
    refine ⟨?_, stores_update hinv ht⟩
    have hroom : ∀ n, room (quotaOf limit (classOf window call)) n =
      decide (n < (limit call.key).toNat) := room_quotaOf hpos
    rw [hroom, decide_eq_decide]
    omega

/-! ## Any calls -/

def inMemoryAnswers (window : ℕ+) (limit : String → ℤ) (calls : List Call) : List Bool :=
  answers (inMemoryAllow window limit) (fun _ => none) calls

def redisAnswers (window : ℕ+) (limit : String → ℤ) (calls : List Call) : List Bool :=
  answers (redisAllow window limit) (fun _ => none) calls

variable {calls : List Call}

theorem inMemoryAnswers_eq (hclock : calls.Pairwise fun a b => a.now ≤ b.now) :
    inMemoryAnswers window limit calls =
      admitted (classOf window) (quotaOf limit) [] calls :=
  Quota.answers_eq_admitted (fun a b => a.now ≤ b.now) (Remembers window limit)
    (fun _ _ _ => inMemory_step) (fun _ _ _ _ => by simp [counted, seen]) hclock

theorem redisAnswers_eq (hclock : calls.Pairwise fun a b => a.now ≤ b.now) :
    redisAnswers window limit calls = admitted (classOf window) (quotaOf limit) [] calls :=
  Quota.answers_eq_admitted (fun a b => a.now ≤ b.now) (Stores window limit)
    (fun _ _ _ => redis_step) (fun _ _ _ _ => by simp [seen]) hclock

/-- The answers to the calls of a key in a bucket. -/
def answersIn (window : ℕ+) (key : String) (b : ℤ) (calls : List Call) (given : List Bool) :
    List Bool := ofClass (classOf window) (key, b) calls given

def callsIn (window : ℕ+) (key : String) (b : ℤ) (calls : List Call) : ℕ :=
  seen (classOf window) (key, b) calls

/-- Both backends admit the same calls: of a key in a bucket the first `limit`, or all where the
limit is not positive. -/
theorem limiters_agree (window : ℕ+) (limit : String → ℤ) (calls : List Call)
    (hclock : calls.Pairwise fun a b => a.now ≤ b.now) :
    inMemoryAnswers window limit calls = redisAnswers window limit calls ∧
    ∀ (key : String) (b : ℤ),
      answersIn window key b calls (inMemoryAnswers window limit calls) =
        if limit key ≤ 0 then List.replicate (callsIn window key b calls) true
        else List.replicate (min (limit key).toNat (callsIn window key b calls)) true ++
          List.replicate (callsIn window key b calls - (limit key).toNat) false := by
  rw [inMemoryAnswers_eq hclock, redisAnswers_eq hclock]
  refine ⟨rfl, fun key b => ?_⟩
  rw [answersIn, callsIn]
  split_ifs with hlimit
  · exact Quota.ofClass_none (quotaOf_none hlimit) calls
  · exact Quota.ofClass_some (quotaOf_some (not_le.1 hlimit)) calls

/-- Three calls in one minute of a key that may make two. -/
theorem third_denied :
    inMemoryAnswers 60 (fun _ => 2) [⟨"k", 1⟩, ⟨"k", 2⟩, ⟨"k", 2⟩] =
      redisAnswers 60 (fun _ => 2) [⟨"k", 1⟩, ⟨"k", 2⟩, ⟨"k", 2⟩] ∧
    ∀ (key : String) (b : ℤ),
      answersIn 60 key b [⟨"k", 1⟩, ⟨"k", 2⟩, ⟨"k", 2⟩]
          (inMemoryAnswers 60 (fun _ => 2) [⟨"k", 1⟩, ⟨"k", 2⟩, ⟨"k", 2⟩]) =
        if (2 : ℤ) ≤ 0 then
          List.replicate (callsIn 60 key b [⟨"k", 1⟩, ⟨"k", 2⟩, ⟨"k", 2⟩]) true
        else
          List.replicate (min (2 : ℤ).toNat
            (callsIn 60 key b [⟨"k", 1⟩, ⟨"k", 2⟩, ⟨"k", 2⟩])) true ++
          List.replicate (callsIn 60 key b [⟨"k", 1⟩, ⟨"k", 2⟩, ⟨"k", 2⟩] - (2 : ℤ).toNat)
            false :=
  limiters_agree 60 (fun _ => 2) [⟨"k", 1⟩, ⟨"k", 2⟩, ⟨"k", 2⟩] (by decide +kernel)

/-- A limit of zero admits every call. -/
theorem zero_unlimited :
    ¬ ∀ (window : ℕ+) (limit : String → ℤ) (calls : List Call),
      calls.Pairwise (fun a b => a.now ≤ b.now) → ∀ (key : String) (b : ℤ),
        answersIn window key b calls (inMemoryAnswers window limit calls) =
          List.replicate (min (limit key).toNat (callsIn window key b calls)) true ++
            List.replicate (callsIn window key b calls - (limit key).toNat) false := by
  intro h
  exact absurd (h 60 (fun _ => 0) [⟨"k", 1⟩] (List.pairwise_singleton _ _) "k" 0)
    (by decide +kernel)

end Varsten.Core.RateLimit
