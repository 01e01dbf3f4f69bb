import Varsten.Machine.Runs
import Varsten.Machine.Table
import Varsten.Python.Text

/-!
# Tenants

The users, organizations and projects of the installation. A sign-in is two queries and a commit,
and any number of them run at once; the other calls are one step each. Every token names a subject.
`lower` is the one of Python, `sqlLower` the one of the database, and `operators` the emails that
may provision customers.
-/

namespace Varsten.Accounts.Tenants

open Machine (Table)
open Machine.Runs (steps final)
open Python.Utf8 (Text)

structure User where
  id : ℕ
  email : Text
  subject : Option Text
  deriving DecidableEq

structure Project where
  id : ℕ
  organizationId : ℕ
  deriving DecidableEq

/-- Whom a sign-in has found. -/
inductive Found where
  | bound (user : User)
  | invited (id : ℕ)
  | new

inductive Phase where
  | bySubject
  | byEmail
  | writing (found : Found)

structure SignIn where
  sub : Text
  email : Text
  phase : Phase

structure State where
  users : Table User.id
  organizations : List ℕ
  memberships : List (ℕ × ℕ)
  projects : Table Project.id
  signIns : ℕ → Option SignIn

def State.initial : State := ⟨Table.empty, [], [], Table.empty, fun _ => none⟩

/-- A sign-in has the email of its token, if there is one, and that of its body. -/
inductive Input where
  | sync (r : ℕ) (sub : Text) (claimed : Option Text) (email : Text)
  | lookup (r : ℕ)
  | commit (r userId organizationId projectId : ℕ)
  | createOrganization (sub : Text) (organizationId projectId : ℕ)
  | createProject (sub : Text) (organizationId projectId : ℕ)
  | provision (sub email : Text) (userId organizationId projectId : ℕ)

section Authorization

variable (s : State) (sub : Text)

structure HttpError where
  statusCode : ℕ
  detail : String
  deriving DecidableEq

def userOf : Option User := s.users.rows.find? (·.subject = some sub)

def requireUser : Except HttpError User :=
  match userOf s sub with
  | some user => .ok user
  | none => .error ⟨401, "user not provisioned; call POST /v1/auth/sync first"⟩

def assertMember (user : User) (organizationId : ℕ) : Except HttpError Unit :=
  if (user.id, organizationId) ∈ s.memberships then .ok ()
  else .error ⟨403, "not a member of this project's organization"⟩

def requireOrgMember (organizationId : ℕ) : Except HttpError ℕ := do
  let user ← requireUser s sub
  if organizationId ∉ s.organizations then .error ⟨404, "organization not found"⟩
  assertMember s user organizationId
  return organizationId

def requireProjectMember (projectId : ℕ) : Except HttpError Project := do
  let user ← requireUser s sub
  match s.projects.find projectId with
  | none => .error ⟨404, "project not found"⟩
  | some project =>
    assertMember s user project.organizationId
    return project

/-- `resolve_project`, for a session. -/
def resolveProject (projectId : Option ℕ) : Except HttpError Project := do
  let user ← requireUser s sub
  match projectId with
  | none => .error ⟨400, "project_id is required for session auth"⟩
  | some projectId =>
    match s.projects.find projectId with
    | none => .error ⟨404, "project not found"⟩
    | some project =>
      assertMember s user project.organizationId
      return project

end Authorization

section Steps

variable (lower sqlLower : Text → Text) (operators : List Text)

def isOperator (s : State) (sub : Text) : Bool :=
  (userOf s sub).any fun user => lower user.email ∈ operators.map lower

/-- `EMAIL_RE`, on a text without white space at its ends. -/
def isEmail (email : Text) : Bool :=
  match email.splitOn '@' with
  | [name, domain] =>
    name ≠ [] && !email.any Python.Text.isSpace && (domain.drop 1).dropLast.contains '.'
  | _ => false

def cleanEmail (email : Text) : Option Text :=
  let cleaned := lower (Python.Text.strip email)
  if isEmail cleaned then some cleaned else none

def State.setSignIn (s : State) (r : ℕ) (x : Option SignIn) : State :=
  { s with signIns := Function.update s.signIns r x }

def State.provisioned (s : State) (userId organizationId : ℕ) (project : Project) : Option State :=
  if organizationId ∈ s.organizations then none
  else
    (s.projects.add project).map fun projects =>
      { s with
        organizations := s.organizations ++ [organizationId]
        memberships := s.memberships ++ [(userId, organizationId)]
        projects }

def lookup (s : State) (x : SignIn) : Phase :=
  match x.phase with
  | .bySubject =>
    match userOf s x.sub with
    | some user => .writing (.bound user)
    | none => .byEmail
  | .byEmail =>
    match s.users.rows.find? fun u => sqlLower u.email = lower x.email && u.subject = none with
    | some user => .writing (.invited user.id)
    | none => .writing .new
  | phase => phase

def State.takes (s : State) (u : User) : Bool :=
  s.users.rows.any fun v =>
    v.id ≠ u.id && (v.email = u.email || (u.subject.isSome && v.subject = u.subject))

def State.putUser (s : State) (u : User) : Option State :=
  if s.takes u then none else some { s with users := s.users.put u }

/-- What the sign-in commits; `none` is where a constraint fails. -/
def written (s : State) (x : SignIn) (userId organizationId projectId : ℕ) : Found → Option State
  | .bound loaded =>
    if x.email = loaded.email then some s
    else (s.users.find loaded.id).bind fun u => s.putUser { u with email := x.email }
  | .invited id => (s.users.find id).bind fun u => s.putUser { u with subject := some x.sub }
  | .new =>
    if (s.users.find userId).isSome then none
    else do
      let s ← s.putUser ⟨userId, x.email, some x.sub⟩
      s.provisioned userId organizationId ⟨projectId, organizationId⟩

def provision (s : State) (email : Text) (userId organizationId projectId : ℕ) : Option State := do
  let email ← cleanEmail lower email
  match s.users.rows.find? (·.email = email) with
  | some user => s.provisioned user.id organizationId ⟨projectId, organizationId⟩
  | none =>
    if (s.users.find userId).isSome then none
    else do
      let s ← s.putUser ⟨userId, email, none⟩
      s.provisioned userId organizationId ⟨projectId, organizationId⟩

def step (s : State) : Input → State
  | .sync r sub claimed email =>
    s.setSignIn r (some ⟨sub, (claimed.filter (· ≠ [])).getD email, .bySubject⟩)
  | .lookup r =>
    match s.signIns r with
    | some x => s.setSignIn r (some { x with phase := lookup lower sqlLower s x })
    | none => s
  | .commit r userId organizationId projectId =>
    match s.signIns r with
    | some ⟨sub, email, .writing found⟩ =>
      ((written s ⟨sub, email, .writing found⟩ userId organizationId projectId found).getD
        s).setSignIn r none
    | _ => s
  | .createOrganization sub organizationId projectId =>
    match requireUser s sub with
    | .ok user => (s.provisioned user.id organizationId ⟨projectId, organizationId⟩).getD s
    | .error _ => s
  | .createProject sub organizationId projectId =>
    match requireOrgMember s sub organizationId with
    | .ok _ =>
      (s.projects.add ⟨projectId, organizationId⟩).elim s fun projects => { s with projects }
    | .error _ => s
  | .provision sub email userId organizationId projectId =>
    if isOperator lower operators s sub then
      (provision lower s email userId organizationId projectId).getD s
    else s

end Steps

/-! ## Authorization -/

section Authorization

variable {s : State} {sub : Text} {user : User} {o : ℕ}

theorem userOf_eq_some (h : userOf s sub = some user) :
    user ∈ s.users.rows ∧ user.subject = some sub :=
  ⟨List.mem_of_find?_eq_some h, by simpa using List.find?_some h⟩

theorem bind_eq_ok {ε α β : Type} {x : Except ε α} {f : α → Except ε β} {b : β} :
    (x >>= f) = .ok b ↔ ∃ a, x = .ok a ∧ f a = .ok b := by
  cases x with
  | error e => simp [bind, Except.bind]
  | ok a => simp [bind, Except.bind]

theorem requireUser_eq_ok (h : requireUser s sub = .ok user) : userOf s sub = some user := by
  unfold requireUser at h
  cases huser : userOf s sub with
  | none => rw [huser] at h; cases h
  | some v => rw [huser] at h; exact congrArg some (Except.ok.inj h)

theorem assertMember_eq_ok {x : Unit} (h : assertMember s user o = .ok x) :
    (user.id, o) ∈ s.memberships := by
  unfold assertMember at h
  split_ifs at h with hmember
  exact hmember

/-- A session is let into an organization by one of the checks. -/
inductive Reaches (s : State) (sub : Text) : ℕ → Prop
  | organization {o o' : ℕ} (h : requireOrgMember s sub o = .ok o') : Reaches s sub o
  | project {id : ℕ} {project : Project} (h : requireProjectMember s sub id = .ok project) :
      Reaches s sub project.organizationId
  | resolved {id : Option ℕ} {project : Project} (h : resolveProject s sub id = .ok project) :
      Reaches s sub project.organizationId

theorem Reaches.member (h : Reaches s sub o) :
    ∃ user, userOf s sub = some user ∧ (user.id, o) ∈ s.memberships := by
  cases h with
  | organization h =>
    obtain ⟨user, huser, h⟩ := bind_eq_ok.1 h
    split_ifs at h with horg
    · obtain ⟨_, hmember, -⟩ := bind_eq_ok.1 h
      exact ⟨user, requireUser_eq_ok huser, assertMember_eq_ok hmember⟩
    · cases h
  | @project id project h =>
    obtain ⟨user, huser, h⟩ := bind_eq_ok.1 h
    cases hproject : s.projects.find id with
    | none => rw [hproject] at h; cases h
    | some found =>
      rw [hproject] at h
      obtain ⟨_, hmember, hfound⟩ := bind_eq_ok.1 h
      obtain rfl := Except.ok.inj hfound
      exact ⟨user, requireUser_eq_ok huser, assertMember_eq_ok hmember⟩
  | @resolved id project h =>
    obtain ⟨user, huser, h⟩ := bind_eq_ok.1 h
    cases id with
    | none => cases h
    | some id =>
      dsimp only at h
      cases hproject : s.projects.find id with
      | none => rw [hproject] at h; cases h
      | some found =>
        rw [hproject] at h
        obtain ⟨_, hmember, hfound⟩ := bind_eq_ok.1 h
        obtain rfl := Except.ok.inj hfound
        exact ⟨user, requireUser_eq_ok huser, assertMember_eq_ok hmember⟩

end Authorization

/-! ## Who is entitled -/

section Runs

variable {lower sqlLower : Text → Text} {operators : List Text} {s s' : State}
  {past : List (State × Input)} {q : State × Input} {sub : Text} {o : ℕ} {u : User}

def Own (past : List (State × Input)) (sub : Text) (o : ℕ) : Prop :=
  ∃ q ∈ past, (∃ p, q.2 = .createOrganization sub o p) ∨
    ∃ r user p email, q.2 = .commit r user o p ∧
      q.1.signIns r = some ⟨sub, email, .writing .new⟩

def Provisioned (lower : Text → Text) (operators : List Text) (past : List (State × Input))
    (email : Text) (o : ℕ) : Prop :=
  ∃ q ∈ past, ∃ operator address user p, q.2 = .provision operator address user o p ∧
    isOperator lower operators q.1 operator = true ∧ cleanEmail lower address = some email

def Claimed (lower sqlLower : Text → Text) (past : List (State × Input)) (sub email : Text) :
    Prop :=
  ∃ q ∈ past, (∃ u ∈ q.1.users.rows, u.subject = some sub ∧ u.email = email) ∨
    ∃ r user o p address phase, q.2 = .commit r user o p ∧
      q.1.signIns r = some ⟨sub, address, phase⟩ ∧ sqlLower email = lower address

def Granted (lower sqlLower : Text → Text) (operators : List Text) (past : List (State × Input))
    (sub : Text) (o : ℕ) : Prop :=
  Own past sub o ∨
    ∃ email, Provisioned lower operators past email o ∧ Claimed lower sqlLower past sub email

def Entitled (lower sqlLower : Text → Text) (operators : List Text) (past : List (State × Input))
    (u : User) (o : ℕ) : Prop :=
  u.subject.elim (Provisioned lower operators past u.email o) fun sub =>
    Granted lower sqlLower operators past sub o

theorem Provisioned.later {email : Text} (h : Provisioned lower operators past email o)
    (q : State × Input) : Provisioned lower operators (past ++ [q]) email o := by
  obtain ⟨q', hq', h⟩ := h
  exact ⟨q', List.mem_append_left _ hq', h⟩

theorem Granted.later (h : Granted lower sqlLower operators past sub o) (q : State × Input) :
    Granted lower sqlLower operators (past ++ [q]) sub o := by
  rcases h with ⟨q', hq', h⟩ | ⟨email, hprovisioned, q', hq', h⟩
  · exact .inl ⟨q', List.mem_append_left _ hq', h⟩
  · exact .inr ⟨email, hprovisioned.later q, q', List.mem_append_left _ hq', h⟩

theorem Entitled.later (h : Entitled lower sqlLower operators past u o) (q : State × Input) :
    Entitled lower sqlLower operators (past ++ [q]) u o := by
  unfold Entitled at h ⊢
  cases hsub : u.subject with
  | none =>
    rw [hsub] at h
    exact Provisioned.later h q
  | some sub =>
    rw [hsub] at h
    exact Granted.later h q

def Consistent (lower sqlLower : Text → Text) (s : State) (x : SignIn) : Prop :=
  match x.phase with
  | .writing (.bound loaded) => ∃ u ∈ s.users.rows, u.id = loaded.id ∧ u.subject.isSome = true
  | .writing (.invited id) =>
    ∃ u ∈ s.users.rows, u.id = id ∧ (u.subject = none → sqlLower u.email = lower x.email)
  | _ => True

structure Tenanted (lower sqlLower : Text → Text) (operators : List Text)
    (past : List (State × Input)) (s : State) : Prop where
  members : ∀ m ∈ s.memberships, ∃ u ∈ s.users.rows, u.id = m.1 ∧
    Entitled lower sqlLower operators past u m.2
  signIns : ∀ r x, s.signIns r = some x → Consistent lower sqlLower s x

def Advances (lower sqlLower : Text → Text) (operators : List Text) (past : List (State × Input))
    (q : State × Input) (s s' : State) : Prop :=
  ∀ u ∈ s.users.rows, ∃ u' ∈ s'.users.rows, u'.id = u.id ∧
    (u.subject.isSome = true → u'.subject.isSome = true) ∧ (u'.subject = none → u' = u) ∧
    ∀ o, Entitled lower sqlLower operators past u o →
      Entitled lower sqlLower operators (past ++ [q]) u' o

theorem advances_same (h : s'.users = s.users) :
    Advances lower sqlLower operators past q s s' :=
  fun u hu => ⟨u, h ▸ hu, rfl, fun hs => hs, fun _ => rfl, fun _ he => he.later q⟩

theorem advances_put {u u' : User} (hu : u ∈ s.users.rows) (hid : u'.id = u.id)
    (hsubject : u'.subject.isSome = true)
    (he : ∀ o, Entitled lower sqlLower operators past u o →
      Entitled lower sqlLower operators (past ++ [q]) u' o)
    (h : s'.users = s.users.put u') : Advances lower sqlLower operators past q s s' := by
  intro v hv
  rw [h]
  by_cases hne : v.id = u'.id
  · obtain rfl := Table.eq_of_key_eq hv hu (hne.trans hid)
    refine ⟨u', Table.mem_put.2 (.inl rfl), hid, fun _ => hsubject, fun hnone => ?_, he⟩
    rw [hnone] at hsubject
    cases hsubject
  · exact ⟨v, Table.mem_put.2 (.inr ⟨hv, hne⟩), rfl, fun hs => hs, fun _ => rfl,
      fun _ he => he.later q⟩

theorem advances_new {u' : User} (hnew : s.users.find u'.id = none)
    (h : s'.users = s.users.put u') : Advances lower sqlLower operators past q s s' := by
  intro v hv
  rw [h]
  exact ⟨v, Table.mem_put.2 (.inr ⟨hv, Table.find_eq_none.1 hnew v hv⟩), rfl, fun hs => hs,
    fun _ => rfl, fun _ he => he.later q⟩

theorem Consistent.later {x : SignIn} (h : Consistent lower sqlLower s x)
    (hadvances : Advances lower sqlLower operators past q s s') :
    Consistent lower sqlLower s' x := by
  obtain ⟨sub, email, phase⟩ := x
  rcases phase with _ | _ | loaded | id | _
  · trivial
  · trivial
  · obtain ⟨u, hu, hid, hbound⟩ := h
    obtain ⟨u', hu', hid', hbound', -⟩ := hadvances u hu
    exact ⟨u', hu', hid'.trans hid, hbound' hbound⟩
  · obtain ⟨u, hu, hid, hemail⟩ := h
    obtain ⟨u', hu', hid', -, hsame, -⟩ := hadvances u hu
    refine ⟨u', hu', hid'.trans hid, fun hnone => ?_⟩
    obtain rfl := hsame hnone
    exact hemail hnone
  · trivial

theorem Tenanted.later (h : Tenanted lower sqlLower operators past s)
    (hadvances : Advances lower sqlLower operators past q s s')
    (hmembers : ∀ m ∈ s'.memberships, m ∈ s.memberships ∨ ∃ u ∈ s'.users.rows, u.id = m.1 ∧
      Entitled lower sqlLower operators (past ++ [q]) u m.2)
    (hsignIns : ∀ r x, s'.signIns r = some x →
      s.signIns r = some x ∨ Consistent lower sqlLower s' x) :
    Tenanted lower sqlLower operators (past ++ [q]) s' where
  members m hm := by
    rcases hmembers m hm with hold | hnew
    · obtain ⟨u, hu, hid, he⟩ := h.members m hold
      obtain ⟨u', hu', hid', -, -, he'⟩ := hadvances u hu
      exact ⟨u', hu', hid'.trans hid, he' m.2 he⟩
    · exact hnew
  signIns r x hx := by
    rcases hsignIns r x hx with hold | hnew
    · exact (h.signIns r x hold).later hadvances
    · exact hnew

/-! ## Steps -/

theorem tenanted_same (h : Tenanted lower sqlLower operators past s) (q : State × Input) :
    Tenanted lower sqlLower operators (past ++ [q]) s :=
  h.later (advances_same rfl) (fun _ hm => .inl hm) fun _ _ hx => .inl hx

theorem setSignIn_some {r r' : ℕ} {x : Option SignIn} {y : SignIn}
    (h : (s.setSignIn r x).signIns r' = some y) : s.signIns r' = some y ∨ x = some y := by
  unfold State.setSignIn at h
  by_cases hr : r' = r
  · rw [hr] at h
    simp only [Function.update_self] at h
    exact .inr h
  · simp only [Function.update_of_ne hr] at h
    exact .inl h

theorem putUser_eq_some (h : s.putUser u = some s') : s' = { s with users := s.users.put u } := by
  unfold State.putUser at h
  split_ifs at h
  exact (Option.some.inj h).symm

theorem provisioned_eq_some {userId : ℕ} {project : Project}
    (h : s.provisioned userId o project = some s') : s'.users = s.users ∧
      s'.signIns = s.signIns ∧ s'.memberships = s.memberships ++ [(userId, o)] := by
  unfold State.provisioned at h
  split_ifs at h
  obtain ⟨projects, -, rfl⟩ := Option.map_eq_some_iff.1 h
  exact ⟨rfl, rfl, rfl⟩

theorem Tenanted.provisioned (h : Tenanted lower sqlLower operators past s) {userId : ℕ}
    {project : Project} {s₁ : State} (hnew : s₁.provisioned userId o project = some s')
    (hadvances : Advances lower sqlLower operators past q s s₁)
    (hmemberships : s₁.memberships = s.memberships) (hsignIns : s₁.signIns = s.signIns)
    (hentitled : ∃ u ∈ s₁.users.rows, u.id = userId ∧
      Entitled lower sqlLower operators (past ++ [q]) u o) :
    Tenanted lower sqlLower operators (past ++ [q]) s' := by
  obtain ⟨husers, hsignIns', hmemberships'⟩ := provisioned_eq_some hnew
  have hadvances' : Advances lower sqlLower operators past q s s' := by
    intro u hu
    obtain ⟨u', hu', hrest⟩ := hadvances u hu
    exact ⟨u', husers ▸ hu', hrest⟩
  refine h.later hadvances' (fun m hm => ?_) fun r x hx => .inl ?_
  · rw [hmemberships', hmemberships] at hm
    rcases List.mem_append.1 hm with hold | hnew
    · exact .inl hold
    · obtain rfl := List.mem_singleton.1 hnew
      exact .inr (husers ▸ hentitled)
  · rwa [hsignIns', hsignIns] at hx

theorem Tenanted.ended (h : Tenanted lower sqlLower operators past s) (r : ℕ) :
    Tenanted lower sqlLower operators past (s.setSignIn r none) where
  members := h.members
  signIns r' x hx := by
    rcases setSignIn_some hx with hold | hnew
    · exact h.signIns r' x hold
    · cases hnew

theorem Tenanted.lookup (h : Tenanted lower sqlLower operators past s) (r : ℕ) :
    Tenanted lower sqlLower operators (past ++ [(s, .lookup r)])
      (step lower sqlLower operators s (.lookup r)) := by
  rw [step.eq_def]
  dsimp only
  cases hx : s.signIns r with
  | none => exact tenanted_same h _
  | some x =>
    refine h.later (advances_same rfl) (fun _ hm => .inl hm) fun r' y hy => ?_
    rcases setSignIn_some hy with hold | hnew
    · exact .inl hold
    · obtain rfl := Option.some.inj hnew
      refine .inr ?_
      obtain ⟨sub, email, phase⟩ := x
      rcases phase with _ | _ | found
      · unfold Tenants.lookup
        dsimp only
        cases huser : userOf s sub with
        | none => trivial
        | some user =>
          obtain ⟨hu, hsub⟩ := userOf_eq_some huser
          exact ⟨user, hu, rfl, by rw [hsub]; rfl⟩
      · unfold Tenants.lookup
        dsimp only
        cases huser : s.users.rows.find? fun u =>
            sqlLower u.email = lower email && u.subject = none with
        | none => trivial
        | some user =>
          have hfound := List.find?_some huser
          rw [Bool.and_eq_true, decide_eq_true_eq] at hfound
          exact ⟨user, List.mem_of_find?_eq_some huser, rfl, fun _ => hfound.1⟩
      · exact h.signIns r _ hx

/-- A sign-in links a user only when nobody has been bound to it since it was read. -/
def Undisputed (s : State) (a : Input) : Prop :=
  ∀ r user o p sub email id, a = .commit r user o p →
    s.signIns r = some ⟨sub, email, .writing (.invited id)⟩ →
    ∃ u ∈ s.users.rows, u.id = id ∧ u.subject = none

def undisputed (s : State) : Input → Bool
  | .commit r _ _ _ =>
    match s.signIns r with
    | some ⟨_, _, .writing (.invited id)⟩ =>
      s.users.rows.any fun u => u.id = id && u.subject = none
    | _ => true
  | _ => true

theorem undisputed_iff {a : Input} : undisputed s a = true ↔ Undisputed s a := by
  constructor
  · rintro h r user o p sub email id rfl hx
    simp only [undisputed, hx, List.any_eq_true, Bool.and_eq_true, decide_eq_true_eq] at h
    exact h
  · intro h
    cases a with
    | commit r user o p =>
      dsimp only [undisputed]
      rcases hx : s.signIns r with _ | ⟨sub, email, _ | _ | _ | id | _⟩
      · rfl
      · rfl
      · rfl
      · rfl
      · simpa using h r user o p sub email id rfl hx
      · rfl
    | _ => rfl

instance (s : State) (a : Input) : Decidable (Undisputed s a) :=
  decidable_of_iff _ undisputed_iff

theorem Tenanted.written (h : Tenanted lower sqlLower operators past s) {r userId p : ℕ}
    {email : Text} {found : Found} (hx : s.signIns r = some ⟨sub, email, .writing found⟩)
    (hundisputed : Undisputed s (.commit r userId o p))
    (hwritten : written s ⟨sub, email, .writing found⟩ userId o p found = some s') :
    Tenanted lower sqlLower operators (past ++ [(s, .commit r userId o p)]) s' := by
  have hnow : (s, Input.commit r userId o p) ∈ past ++ [(s, .commit r userId o p)] :=
    List.mem_append_right _ (List.mem_singleton_self _)
  have hput : ∀ {u u' : User}, s.putUser u' = some s' → u ∈ s.users.rows → u'.id = u.id →
      u'.subject.isSome = true →
      (∀ o', Entitled lower sqlLower operators past u o' →
        Entitled lower sqlLower operators (past ++ [(s, .commit r userId o p)]) u' o') →
      Tenanted lower sqlLower operators (past ++ [(s, .commit r userId o p)]) s' := by
    intro u u' hs' hu hid hsubject he
    obtain rfl := putUser_eq_some hs'
    exact h.later (advances_put hu hid hsubject he rfl) (fun _ hm => .inl hm) fun _ _ hx => .inl hx
  have hconsistent := h.signIns r _ hx
  rcases found with loaded | id | _
  · unfold Tenants.written at hwritten
    dsimp only at hwritten
    split_ifs at hwritten
    · obtain rfl := Option.some.inj hwritten
      exact tenanted_same h _
    · obtain ⟨u, hu, hs'⟩ := Option.bind_eq_some_iff.1 hwritten
      obtain ⟨hu, hid⟩ := Table.find_eq_some.1 hu
      obtain ⟨v, hv, hid', hbound⟩ := hconsistent
      obtain rfl := Table.eq_of_key_eq hv hu (hid'.trans hid.symm)
      refine hput hs' hu rfl hbound fun o' he => ?_
      obtain ⟨sub', hsub'⟩ := Option.isSome_iff_exists.1 hbound
      have hlater := he.later (s, .commit r userId o p)
      unfold Entitled at hlater ⊢
      rw [hsub'] at hlater ⊢
      exact hlater
  · obtain ⟨u, hu, hs'⟩ := Option.bind_eq_some_iff.1 hwritten
    obtain ⟨hu, hid⟩ := Table.find_eq_some.1 hu
    obtain ⟨v, hv, hid', hnone⟩ := hundisputed r userId o p sub email id rfl hx
    obtain rfl := Table.eq_of_key_eq hv hu (hid'.trans hid.symm)
    obtain ⟨w, hw, hid'', hemail⟩ := hconsistent
    obtain rfl := Table.eq_of_key_eq hw hu (hid''.trans hid.symm)
    refine hput hs' hu rfl rfl fun o' he => ?_
    unfold Entitled at he ⊢
    rw [hnone] at he
    exact .inr ⟨w.email, Provisioned.later he _, _, hnow,
      .inr ⟨r, userId, o, p, email, _, rfl, hx, hemail hnone⟩⟩
  · unfold Tenants.written at hwritten
    dsimp only at hwritten
    split_ifs at hwritten with htaken
    obtain ⟨s₁, hs₁, hs'⟩ := Option.bind_eq_some_iff.1 hwritten
    obtain rfl := putUser_eq_some hs₁
    have hfree : s.users.find userId = none := by simpa using htaken
    refine h.provisioned hs' (advances_new hfree rfl) rfl rfl
      ⟨⟨userId, email, some sub⟩, Table.mem_put.2 (.inl rfl), rfl, ?_⟩
    exact .inl ⟨_, hnow, .inr ⟨r, userId, p, email, rfl, hx⟩⟩

theorem Tenanted.provision (h : Tenanted lower sqlLower operators past s) {operator email : Text}
    {userId p : ℕ} (hoperator : isOperator lower operators s operator = true)
    (hnew : provision lower s email userId o p = some s') :
    Tenanted lower sqlLower operators (past ++ [(s, .provision operator email userId o p)]) s' := by
  obtain ⟨cleaned, hcleaned, hnew⟩ := Option.bind_eq_some_iff.1 hnew
  have hnow : (s, Input.provision operator email userId o p) ∈
      past ++ [(s, .provision operator email userId o p)] :=
    List.mem_append_right _ (List.mem_singleton_self _)
  have hprovisioned : Provisioned lower operators
      (past ++ [(s, .provision operator email userId o p)]) cleaned o :=
    ⟨_, hnow, operator, email, userId, p, rfl, hoperator, hcleaned⟩
  cases huser : s.users.rows.find? (·.email = cleaned) with
  | some user =>
    rw [huser] at hnew
    have hu := List.mem_of_find?_eq_some huser
    obtain rfl : user.email = cleaned := by simpa using List.find?_some huser
    refine h.provisioned hnew (advances_same rfl) rfl rfl ⟨user, hu, rfl, ?_⟩
    unfold Entitled
    cases hsub : user.subject with
    | none => exact hprovisioned
    | some sub => exact .inr ⟨user.email, hprovisioned, _, hnow, .inl ⟨user, hu, hsub, rfl⟩⟩
  | none =>
    rw [huser] at hnew
    dsimp only at hnew
    split_ifs at hnew with htaken
    obtain ⟨s₁, hs₁, hs'⟩ := Option.bind_eq_some_iff.1 hnew
    obtain rfl := putUser_eq_some hs₁
    have hfree : s.users.find userId = none := by simpa using htaken
    exact h.provisioned hs' (advances_new hfree rfl) rfl rfl
      ⟨⟨userId, cleaned, none⟩, Table.mem_put.2 (.inl rfl), rfl, hprovisioned⟩

theorem Tenanted.step (h : Tenanted lower sqlLower operators past s) {a : Input}
    (ha : Undisputed s a) : Tenanted lower sqlLower operators (past ++ [(s, a)])
      (step lower sqlLower operators s a) := by
  cases a with
  | sync r sub claimed email =>
    refine h.later (advances_same rfl) (fun _ hm => .inl hm) fun r' y hy => ?_
    rcases setSignIn_some hy with hold | hnew
    · exact .inl hold
    · obtain rfl := Option.some.inj hnew
      exact .inr trivial
  | lookup r => exact h.lookup r
  | commit r userId o p =>
    rw [Tenants.step.eq_def]
    dsimp only
    rcases hx : s.signIns r with _ | ⟨sub, email, _ | _ | found⟩
    · exact tenanted_same h _
    · exact tenanted_same h _
    · exact tenanted_same h _
    · refine Tenanted.ended ?_ r
      cases hwritten : Tenants.written s ⟨sub, email, .writing found⟩ userId o p found with
      | none => exact tenanted_same h _
      | some s' => exact h.written hx ha hwritten
  | createOrganization sub o p =>
    rw [Tenants.step.eq_def]
    dsimp only
    cases huser : requireUser s sub with
    | error e => exact tenanted_same h _
    | ok user =>
      obtain ⟨hu, hsub⟩ := userOf_eq_some (requireUser_eq_ok huser)
      dsimp only
      cases hnew : s.provisioned user.id o ⟨p, o⟩ with
      | none => exact tenanted_same h _
      | some s' =>
        refine h.provisioned hnew (advances_same rfl) rfl rfl ⟨user, hu, rfl, ?_⟩
        unfold Entitled
        rw [hsub]
        exact .inl ⟨_, List.mem_append_right _ (List.mem_singleton_self _), .inl ⟨p, rfl⟩⟩
  | createProject sub o p =>
    rw [Tenants.step.eq_def]
    dsimp only
    cases requireOrgMember s sub o with
    | error e => exact tenanted_same h _
    | ok _ =>
      dsimp only
      cases s.projects.add ⟨p, o⟩ with
      | none => exact tenanted_same h _
      | some projects =>
        exact h.later (advances_same rfl) (fun _ hm => .inl hm) fun _ _ hx => .inl hx
  | provision operator email userId o p =>
    rw [Tenants.step.eq_def]
    dsimp only
    split_ifs with hoperator
    · cases hnew : Tenants.provision lower s email userId o p with
      | none => exact tenanted_same h _
      | some s' => exact h.provision hoperator hnew
    · exact tenanted_same h _

/-- Where no sign-in takes a user that another has been bound to since it read it, a session is let
into an organization only if it made it itself, or an operator made it for an email that the
session's user had or that it signed in with. -/
theorem session_reaches_own (lower sqlLower : Text → Text) (operators : List Text)
    {as : List Input}
    (has : ∀ q ∈ steps (step lower sqlLower operators) .initial as, Undisputed q.1 q.2)
    {sub : Text} {o : ℕ}
    (h : Reaches (final (step lower sqlLower operators) .initial as) sub o) :
    Granted lower sqlLower operators (steps (step lower sqlLower operators) .initial as) sub o := by
  have hstart : Tenanted lower sqlLower operators [] State.initial := ⟨nofun, nofun⟩
  have hstep : ∀ past s a, Undisputed s a → Tenanted lower sqlLower operators past s →
      Tenanted lower sqlLower operators (past ++ [(s, a)])
        (step lower sqlLower operators s a) := fun _ _ _ ha h => h.step ha
  have hrun : Tenanted lower sqlLower operators
      (steps (step lower sqlLower operators) .initial as)
      (final (step lower sqlLower operators) .initial as) :=
    Machine.Runs.history hstep hstart has
  obtain ⟨user, huser, hmember⟩ := h.member
  obtain ⟨hu, hsub⟩ := userOf_eq_some huser
  obtain ⟨v, hv, hid, hentitled⟩ := hrun.members _ hmember
  obtain rfl := Table.eq_of_key_eq hv hu hid
  unfold Entitled at hentitled
  rw [hsub] at hentitled
  exact hentitled

def signIn (r : ℕ) (sub email : Text) (user o p : ℕ) : List Input :=
  [.sync r sub (some email) [], .lookup r, .lookup r, .commit r user o p]

/-- An operator signs up and makes an organization for a customer, who then signs in. -/
def customerSignsIn : List Input :=
  signIn 0 ['o'] "o@v.io".toList 1 10 100 ++ [.provision ['o'] "c@d.io".toList 2 20 200] ++
    signIn 1 ['c'] "c@d.io".toList 3 30 300

theorem customer_reaches_own :
    Granted id id ["o@v.io".toList] (steps (step id id ["o@v.io".toList]) .initial customerSignsIn)
      ['c'] 20 :=
  session_reaches_own id id ["o@v.io".toList] (by decide +kernel)
    (@Reaches.organization _ _ 20 20 (by decide +kernel))

/-! ## Identities -/

/-- A subject is bound to one user. -/
def Unique (s : State) : Prop :=
  ∀ u ∈ s.users.rows, ∀ v ∈ s.users.rows, u.subject.isSome = true → v.subject = u.subject → v = u

/-- What a step writes to the users: nothing, or one row that no constraint forbids, which is new or
the row of a user who stays bound. -/
inductive Writes (s : State) (a : Input) : Table User.id → Prop
  | same : Writes s a s.users
  | put {u : User} (htakes : s.takes u = false)
      (hrow : s.users.find u.id = none ∨ ∃ v ∈ s.users.rows, v.id = u.id ∧
        (Undisputed s a → v.subject.isSome = true → u.subject = v.subject)) :
      Writes s a (s.users.put u)

theorem writes_putUser {a : Input} (h : s.putUser u = some s')
    (hrow : s.users.find u.id = none ∨ ∃ v ∈ s.users.rows, v.id = u.id ∧
      (Undisputed s a → v.subject.isSome = true → u.subject = v.subject)) :
    Writes s a s'.users := by
  unfold State.putUser at h
  split_ifs at h with htakes
  obtain rfl := Option.some.inj h
  exact .put (Bool.eq_false_iff.2 htakes) hrow

theorem writes_provisioned {a : Input} {userId : ℕ} {project : Project} {s₁ : State}
    (h : Writes s a s₁.users) (hnew : s₁.provisioned userId o project = some s') :
    Writes s a s'.users := (provisioned_eq_some hnew).1 ▸ h

theorem writes_commit {r userId p : ℕ} {email : Text} {found : Found}
    (hx : s.signIns r = some ⟨sub, email, .writing found⟩)
    (h : written s ⟨sub, email, .writing found⟩ userId o p found = some s') :
    Writes s (.commit r userId o p) s'.users := by
  rcases found with loaded | id | _
  · unfold written at h
    dsimp only at h
    split_ifs at h
    · obtain rfl := Option.some.inj h
      exact .same
    · obtain ⟨u, hu, hs'⟩ := Option.bind_eq_some_iff.1 h
      exact writes_putUser hs' (.inr ⟨u, (Table.find_eq_some.1 hu).1, rfl, fun _ _ => rfl⟩)
  · obtain ⟨u, hu, hs'⟩ := Option.bind_eq_some_iff.1 h
    obtain ⟨hu, hid⟩ := Table.find_eq_some.1 hu
    refine writes_putUser hs' (.inr ⟨u, hu, rfl, fun hundisputed hbound => ?_⟩)
    obtain ⟨v, hv, hid', hnone⟩ := hundisputed r userId o p sub email id rfl hx
    obtain rfl := Table.eq_of_key_eq hv hu (hid'.trans hid.symm)
    rw [hnone] at hbound
    cases hbound
  · unfold written at h
    dsimp only at h
    split_ifs at h with htaken
    obtain ⟨s₁, hs₁, hs'⟩ := Option.bind_eq_some_iff.1 h
    exact writes_provisioned (writes_putUser hs₁ (.inl (by simpa using htaken))) hs'

theorem writes_step (lower sqlLower : Text → Text) (operators : List Text) (s : State)
    (a : Input) : Writes s a (step lower sqlLower operators s a).users := by
  cases a with
  | sync r sub claimed email => exact .same
  | lookup r =>
    rw [step.eq_def]
    dsimp only
    cases s.signIns r <;> exact .same
  | commit r userId o p =>
    rw [step.eq_def]
    dsimp only
    rcases hx : s.signIns r with _ | ⟨sub, email, _ | _ | found⟩
    · exact .same
    · exact .same
    · exact .same
    · dsimp only
      cases hwritten : written s ⟨sub, email, .writing found⟩ userId o p found with
      | none => exact .same
      | some s' =>
        have hcommit := writes_commit hx hwritten
        exact hcommit
  | createOrganization sub o p =>
    rw [step.eq_def]
    dsimp only
    cases requireUser s sub with
    | error e => exact .same
    | ok user =>
      dsimp only
      cases hnew : s.provisioned user.id o ⟨p, o⟩ with
      | none => exact .same
      | some s' => exact writes_provisioned .same hnew
  | createProject sub o p =>
    rw [step.eq_def]
    dsimp only
    cases requireOrgMember s sub o with
    | error e => exact .same
    | ok _ =>
      dsimp only
      cases s.projects.add ⟨p, o⟩ <;> exact .same
  | provision operator email userId o p =>
    rw [step.eq_def]
    dsimp only
    split_ifs
    · cases hnew : provision lower s email userId o p with
      | none => exact .same
      | some s' =>
        obtain ⟨cleaned, -, hnew⟩ := Option.bind_eq_some_iff.1 hnew
        cases huser : s.users.rows.find? (·.email = cleaned) with
        | some user =>
          rw [huser] at hnew
          exact writes_provisioned .same hnew
        | none =>
          rw [huser] at hnew
          dsimp only at hnew
          split_ifs at hnew with htaken
          obtain ⟨s₁, hs₁, hs'⟩ := Option.bind_eq_some_iff.1 hnew
          exact writes_provisioned (writes_putUser hs₁ (.inl (by simpa using htaken))) hs'
    · exact .same

theorem takes_eq_false (h : s.takes u = false) {v : User} (hv : v ∈ s.users.rows)
    (hid : v.id ≠ u.id) (hu : u.subject.isSome = true) : v.subject ≠ u.subject := by
  intro heq
  refine Bool.false_ne_true (h.symm.trans (List.any_eq_true.2 ⟨v, hv, ?_⟩))
  simp [hid, hu, heq]

theorem Unique.step (h : Unique s) (a : Input) : Unique (step lower sqlLower operators s a) := by
  have hwrites := writes_step lower sqlLower operators s a
  unfold Unique
  generalize (Tenants.step lower sqlLower operators s a).users = users at hwrites
  cases hwrites with
  | same => exact h
  | @put w htakes hrow =>
    intro u hu v hv hbound hsame
    rcases Table.mem_put.1 hu with hu | ⟨hu, hune⟩ <;>
      rcases Table.mem_put.1 hv with hv | ⟨hv, hvne⟩
    · exact hv.trans hu.symm
    · exact absurd (hu ▸ hsame) (takes_eq_false htakes hv hvne (hu ▸ hbound))
    · refine absurd (hv ▸ hsame).symm (takes_eq_false htakes hu hune ?_)
      rw [← hv, hsame]
      exact hbound
    · exact h u hu v hv hbound hsame

theorem bound_kept (lower sqlLower : Text → Text) (operators : List Text) {a : Input}
    (ha : Undisputed s a) (hu : u ∈ s.users.rows) (hbound : u.subject = some sub) :
    ∃ u' ∈ (step lower sqlLower operators s a).users.rows, u'.id = u.id ∧
      u'.subject = some sub := by
  have hwrites := writes_step lower sqlLower operators s a
  generalize (Tenants.step lower sqlLower operators s a).users = users at hwrites
  cases hwrites with
  | same => exact ⟨u, hu, rfl, hbound⟩
  | @put w htakes hrow =>
    by_cases hid : u.id = w.id
    · refine ⟨w, Table.mem_put.2 (.inl rfl), hid.symm, ?_⟩
      rcases hrow with hfree | ⟨v, hv, hid', hkeeps⟩
      · exact absurd hid (Table.find_eq_none.1 hfree u hu)
      · obtain rfl := Table.eq_of_key_eq hv hu (hid'.trans hid.symm)
        rw [hkeeps ha (by rw [hbound]; rfl), hbound]
    · exact ⟨u, Table.mem_put.2 (.inr ⟨hu, hid⟩), rfl, hbound⟩

theorem userOf_bound (h : Unique s) (hu : u ∈ s.users.rows) (hbound : u.subject = some sub) :
    userOf s sub = some u := by
  have hsome : (userOf s sub).isSome = true :=
    List.find?_isSome.2 ⟨u, hu, decide_eq_true hbound⟩
  obtain ⟨v, hv⟩ := Option.isSome_iff_exists.1 hsome
  obtain ⟨hmem, hsub⟩ := userOf_eq_some hv
  rw [hv, h u hu v hmem (by rw [hbound]; rfl) (hsub.trans hbound.symm)]

theorem unique_initial : Unique .initial := fun _ hu => absurd hu List.not_mem_nil

theorem unique_run (lower sqlLower : Text → Text) (operators : List Text) (as : List Input) :
    Unique (final (step lower sqlLower operators) .initial as) := by
  induction as using List.reverseRecOn with
  | nil => exact unique_initial
  | append_singleton as a ih =>
    rw [final, List.foldl_append]
    exact ih.step a

/-- Who a session is does not change, whatever else goes on: where no sign-in takes a user that
another has been bound to since it read it, the session of a user stays that user's. In every run a
subject is bound to one user at most. -/
theorem identity_kept (lower sqlLower : Text → Text) (operators : List Text) {as bs : List Input}
    {sub : Text} {u : User}
    (hu : userOf (final (step lower sqlLower operators) .initial as) sub = some u)
    (hbs : ∀ q ∈ steps (step lower sqlLower operators)
      (final (step lower sqlLower operators) .initial as) bs, Undisputed q.1 q.2) :
    (∃ u', userOf (final (step lower sqlLower operators) .initial (as ++ bs)) sub = some u' ∧
      u'.id = u.id) ∧
      ∀ cs, Unique (final (step lower sqlLower operators) .initial cs) := by
  have hunique := unique_run lower sqlLower operators
  obtain ⟨hmem, hsub⟩ := userOf_eq_some hu
  have hkept : ∀ (_ : List (State × Input)) s a, Undisputed s a →
      (∃ v ∈ s.users.rows, v.id = u.id ∧ v.subject = some sub) →
      ∃ v ∈ (step lower sqlLower operators s a).users.rows, v.id = u.id ∧ v.subject = some sub := by
    rintro - s a ha ⟨v, hv, hid, hsub⟩
    obtain ⟨v', hv', hid', hsub'⟩ := bound_kept lower sqlLower operators ha hv hsub
    exact ⟨v', hv', hid'.trans hid, hsub'⟩
  have hstart : ∃ v ∈ (final (step lower sqlLower operators) .initial as).users.rows,
      v.id = u.id ∧ v.subject = some sub := ⟨u, hmem, rfl, hsub⟩
  have hrun := @Machine.Runs.history _ _ _ _ _ hkept bs _ [] hstart hbs
  rw [final, final, ← List.foldl_append, ← final] at hrun
  obtain ⟨u', hu', hid, hsub'⟩ := hrun
  exact ⟨⟨u', userOf_bound (hunique _) hu' hsub', hid⟩, hunique⟩

theorem customer_kept :
    ∃ u, userOf (final (step id id ["o@v.io".toList]) .initial
      (customerSignsIn ++ signIn 2 ['c'] "c@e.io".toList 4 40 400)) ['c'] = some u ∧ u.id = 2 := by
  have hbound : userOf (final (step id id ["o@v.io".toList]) .initial customerSignsIn) ['c'] =
      some ⟨2, "c@d.io".toList, some ['c']⟩ := by decide +kernel
  have hundisputed : ∀ q ∈ steps (step id id ["o@v.io".toList])
      (final (step id id ["o@v.io".toList]) .initial customerSignsIn)
      (signIn 2 ['c'] "c@e.io".toList 4 40 400), Undisputed q.1 q.2 := by decide +kernel
  exact (identity_kept id id ["o@v.io".toList] hbound hundisputed).1

def customerRaces : List Input :=
  signIn 0 ['o'] "o@v.io".toList 1 10 100 ++ [Input.provision ['o'] "c@d.io".toList 2 20 200] ++
    [Input.sync 1 ['c'] none "c@d.io".toList, Input.sync 2 ['d'] none "c@d.io".toList,
      Input.lookup 1, Input.lookup 1, Input.lookup 2, Input.lookup 2, Input.commit 1 3 30 300,
      Input.commit 2 4 40 400]

example : userOf (final (step id id ["o@v.io".toList]) .initial customerRaces) ['c'] = none := by
  decide +kernel

end Runs

end Varsten.Accounts.Tenants
