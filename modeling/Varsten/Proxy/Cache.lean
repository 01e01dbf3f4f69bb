import Varsten.Python.Value

/-!
# Exact cache

The key digests the request fields in `_KEYED_FIELDS`; an entry is stored unless
a live one has the key. The rows are those of one project, on which the key is
unique.
-/

namespace Varsten.Proxy.Cache

open Python (Json)

def keyedFields : List String :=
  ["model", "messages", "temperature", "top_p", "max_tokens", "max_completion_tokens", "tools",
    "tool_choice", "response_format", "seed", "stop", "n"]

/-- `{k: body[k] for k in _KEYED_FIELDS if k in body}`. -/
def keyed (body : List (String × Json)) : List (String × Json) :=
  keyedFields.filterMap fun k => (Json.item k body).map fun v => (k, v)

mutual

/-- What `sort_keys=True` writes, at every depth. -/
def sortKeys : Json → Json
  | .obj fields => .obj ((sortFields fields).mergeSort fun f g => f.1 ≤ g.1)
  | .arr xs => .arr (sortItems xs)
  | j => j

def sortItems : List Json → List Json
  | [] => []
  | x :: xs => sortKeys x :: sortItems xs

def sortFields : List (String × Json) → List (String × Json)
  | [] => []
  | (k, v) :: fields => (k, sortKeys v) :: sortFields fields

end

/-- `digest` is the SHA-256 of the compact dump. -/
def computeCacheKey {κ : Type} (digest : Json → κ) (body : List (String × Json)) : κ :=
  digest (sortKeys (.obj (keyed body)))

structure CacheEntry where
  cacheKey : String
  model : String
  responsePayload : Json
  inputTokens : ℤ
  outputTokens : ℤ
  expiresAt : Option ℚ

def CacheEntry.live (now : ℚ) (e : CacheEntry) : Bool := e.expiresAt.all fun t => now < t

def getCached (now : ℚ) (cacheKey : String) (rows : List CacheEntry) : Option CacheEntry :=
  rows.find? fun e => e.cacheKey = cacheKey ∧ e.live now

/-- `store` of the row `entry`; the commit fails on any other row with its key, an expired one
too, and where the database does (`commits` is false). -/
def store (now : ℚ) (commits : Bool) (entry : CacheEntry) (rows : List CacheEntry) :
    List CacheEntry :=
  match getCached now entry.cacheKey rows with
  | some _ => rows
  | none =>
    if commits && rows.all (fun e => e.cacheKey ≠ entry.cacheKey) then rows ++ [entry] else rows

theorem getCached_eq_none {now : ℚ} {cacheKey : String} {rows : List CacheEntry}
    (h : ∀ e ∈ rows, e.cacheKey ≠ cacheKey) : getCached now cacheKey rows = none := by
  refine List.find?_eq_none.2 fun e he => ?_
  simp [h e he]

theorem store_eq_self_iff {now : ℚ} {commits : Bool} {entry : CacheEntry}
    {rows : List CacheEntry} : store now commits entry rows = rows ↔
      ¬ (commits = true ∧ ∀ e ∈ rows, e.cacheKey ≠ entry.cacheKey) := by
  unfold store
  constructor
  · intro h hc
    rw [getCached_eq_none hc.2] at h
    have hall : rows.all (fun e => e.cacheKey ≠ entry.cacheKey) = true :=
      List.all_eq_true.2 fun e he => decide_eq_true (hc.2 e he)
    simp only [hc.1, hall, Bool.and_self, if_true] at h
    exact absurd (congrArg List.length h) (by simp)
  · intro h
    split
    · rfl
    · refine if_neg fun hc => h ?_
      rw [Bool.and_eq_true, List.all_eq_true] at hc
      exact ⟨hc.1, fun e he => of_decide_eq_true (hc.2 e he)⟩

end Varsten.Proxy.Cache
