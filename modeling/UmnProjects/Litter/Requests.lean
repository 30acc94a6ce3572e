import UmnProjects.Foundations.Objects
import UmnProjects.Litter.Queries

/-!
The routes of the server, one request after another, and what a request leaves of the tables.
-/
namespace UmnProjects.Litter

open Rows Objects

/-- The tables, and the user each session is logged in as. -/
structure State (V T : Type) where
  posts : Posts T
  logins : Logins T
  loginuser : Nat → Option V

/-- A field of the request body is none when it is missing or null. All routes that only
read posts are one. -/
inductive Route (V : Type) where
  | getPosts
  | post (posttext : Option V)
  | delete (id : Option V)
  | put (id posttext : Option V)
  | liked (id : Option V)
  | createLogin (user password : Option V)
  | login (user password : Option V)
  | logout
  deriving Repr, DecidableEq

/-- `now` is the database's clock and `salt` what the hash of a password draws. -/
structure Request (V : Type) where
  session : Nat
  now : Nat
  salt : Nat
  route : Route V
  deriving Repr, DecidableEq

/-- `posts` stands for a page or a list of posts; a rejected promise leaves the request
without an answer. -/
inductive Answer where
  | send (status : Nat) (res : String)
  | posts
  | unanswered
  deriving Repr, DecidableEq

section Data

variable {V T : Type} (services : Services V T)

/-- The functions of the data module return whether their query affected one row. -/
def affected (query : Option (Nat × Posts T)) (s : State V T) : Option Bool × State V T :=
  match query with
  | none => (none, s)
  | some (affectedRows, posts) => (some (affectedRows == 1), { s with posts := posts })

def addPost (user posttext : V) (now : Nat) (s : State V T) : Option Bool × State V T :=
  affected (insertPost services user posttext now s.posts) s

def editPost (id posttext : V) (now : Nat) (s : State V T) : Option Bool × State V T :=
  affected (updateText services id posttext now s.posts) s

def deletePost (id : V) (s : State V T) : Option Bool × State V T :=
  affected (deleteRows services id s.posts) s

def likePost (id : V) (s : State V T) : Option Bool × State V T :=
  affected (updateLikes services id s.posts) s

def addLogin (user password : V) (salt : Nat) (s : State V T) : Option Bool × State V T :=
  match selectLogins services user s.logins with
  | none => (none, s)
  | some found =>
      if found.length = 1 then (some false, s)
      else match services.hash salt password with
        | none => (none, s)
        | some hpass =>
            match insertLogin services user hpass s.logins with
            | none => (none, s)
            | some (affectedRows, logins) =>
                (some (affectedRows == 1), { s with logins := logins })

/-- Without a row for the user the function fails on `retval[0]`. -/
def checkLogin (user password : V) (s : State V T) : Option Bool :=
  match selectLogins services user s.logins with
  | some (row :: _) => services.compare password row.password
  | _ => none

/-! ### Routes -/

def answer (status : Nat) (failure : Nat) (res : String) (result : Option Bool × State V T) :
    Answer × State V T :=
  match result.1 with
  | none => (.unanswered, result.2)
  | some true => (.send status "success", result.2)
  | some false => (.send failure res, result.2)

def handle (s : State V T) (r : Request V) : Answer × State V T :=
  match r.route with
  | .getPosts => (.posts, s)
  | .post posttext =>
      match s.loginuser r.session, posttext with
      | none, _ => (.send 400 "User is not logged in", s)
      | _, none => (.send 400 "Missing post text in request body", s)
      | some user, some posttext =>
          answer 201 500 "Couldn't make post" (addPost services user posttext r.now s)
  | .delete none => (.send 400 "Missing id in request body", s)
  | .delete (some id) => answer 200 400 "Couldn't find post" (deletePost services id s)
  | .put none _ => (.send 400 "Missing id in request body", s)
  | .put _ none => (.send 400 "Missing post text in request body", s)
  | .put (some id) (some posttext) =>
      answer 200 400 "Couldn't find post" (editPost services id posttext r.now s)
  | .liked none => (.send 400 "Missing id in request body", s)
  | .liked (some id) => answer 200 400 "Couldn't find post" (likePost services id s)
  | .createLogin none _ => (.send 400 "Missing username in request body", s)
  | .createLogin _ none => (.send 400 "Missing password in request body", s)
  | .createLogin (some user) (some password) =>
      answer 200 400 "Invalid username" (addLogin services user password r.salt s)
  | .login none _ => (.send 400 "Missing username in request body", s)
  | .login _ none => (.send 400 "Missing password in request body", s)
  | .login (some user) (some password) =>
      match checkLogin services user password s with
      | none => (.unanswered, s)
      | some false => (.send 400 "Incorrect login", s)
      | some true => (.send 200 "success",
          { s with loginuser := fun n => if n = r.session then some user else s.loginuser n })
  | .logout => (.send 200 "success",
      { s with loginuser := fun n => if n = r.session then none else s.loginuser n })

@[simp]
theorem answer_state (status failure : Nat) (res : String) (result : Option Bool × State V T) :
    (answer status failure res result).2 = result.2 := by
  simp only [answer]
  split <;> rfl

theorem affected_posts (query : Option (Nat × Posts T)) (s : State V T) :
    (affected query s).2.posts = (query.map Prod.snd).getD s.posts := by
  cases query <;> rfl

theorem affected_eq (query : Option (Nat × Posts T)) (s : State V T) :
    ∃ posts, (affected query s).2 = { s with posts } := by
  cases query with
  | none => exact ⟨s.posts, rfl⟩
  | some result => exact ⟨result.2, rfl⟩

theorem addLogin_posts (user password : V) (salt : Nat) (s : State V T) :
    (addLogin services user password salt s).2.posts = s.posts := by
  simp only [addLogin]
  repeat' split
  all_goals rfl

/-! ### What a request does -/

/-- The request writes no post and ends no session. -/
structure Idle (s : State V T) (r : Request V) : Prop where
  post : ∀ posttext, r.route = .post (some posttext) → s.loginuser r.session = none
  delete : ∀ id, r.route ≠ .delete (some id)
  put : ∀ id posttext, r.route ≠ .put (some id) (some posttext)
  liked : ∀ id, r.route ≠ .liked (some id)
  logout : r.route ≠ .logout

/-- The state a request leaves, by what its handler comes to. -/
inductive Handled (s : State V T) : Request V → State V T → Prop where
  | idle {r : Request V} (h : Idle s r) : Handled s r s
  | post {session now salt : Nat} {user posttext : V} (hlogin : s.loginuser session = some user) :
      Handled s ⟨session, now, salt, .post (some posttext)⟩
        (affected (insertPost services user posttext now s.posts) s).2
  | delete {session now salt : Nat} {id : V} :
      Handled s ⟨session, now, salt, .delete (some id)⟩
        (affected (deleteRows services id s.posts) s).2
  | put {session now salt : Nat} {id posttext : V} :
      Handled s ⟨session, now, salt, .put (some id) (some posttext)⟩
        (affected (updateText services id posttext now s.posts) s).2
  | liked {session now salt : Nat} {id : V} :
      Handled s ⟨session, now, salt, .liked (some id)⟩
        (affected (updateLikes services id s.posts) s).2
  | createLogin {session now salt : Nat} {user password : V} :
      Handled s ⟨session, now, salt, .createLogin (some user) (some password)⟩
        (addLogin services user password salt s).2
  | login {session now salt : Nat} {user password : V}
      (hcheck : checkLogin services user password s = some true) :
      Handled s ⟨session, now, salt, .login (some user) (some password)⟩
        { s with loginuser := fun n => if n = session then some user else s.loginuser n }
  | logout {session now salt : Nat} :
      Handled s ⟨session, now, salt, .logout⟩
        { s with loginuser := fun n => if n = session then none else s.loginuser n }

theorem handled (s : State V T) (r : Request V) :
    Handled services s r (handle services s r).2 := by
  obtain ⟨session, now, salt, route⟩ := r
  cases route with
  | getPosts => exact .idle (by constructor <;> simp)
  | post posttext =>
      cases posttext with
      | none =>
          have hsame : (handle services s ⟨session, now, salt, .post none⟩).2 = s := by
            cases hlogin : s.loginuser session <;> simp [handle, hlogin]
          rw [hsame]
          exact .idle (by constructor <;> simp)
      | some posttext =>
          cases hlogin : s.loginuser session with
          | none =>
              have hsame :
                  (handle services s ⟨session, now, salt, .post (some posttext)⟩).2 = s := by
                simp [handle, hlogin]
              rw [hsame]
              exact .idle (by constructor <;> simp [hlogin])
          | some user =>
              simp only [handle, hlogin, answer_state]
              exact .post hlogin
  | delete id =>
      cases id with
      | none => exact .idle (by constructor <;> simp)
      | some id =>
          simp only [handle, answer_state]
          exact .delete
  | put id posttext =>
      cases id with
      | none => exact .idle (by constructor <;> simp)
      | some id =>
          cases posttext with
          | none => exact .idle (by constructor <;> simp)
          | some posttext =>
              simp only [handle, answer_state]
              exact .put
  | liked id =>
      cases id with
      | none => exact .idle (by constructor <;> simp)
      | some id =>
          simp only [handle, answer_state]
          exact .liked
  | createLogin user password =>
      cases user with
      | none => exact .idle (by constructor <;> simp)
      | some user =>
          cases password with
          | none => exact .idle (by constructor <;> simp)
          | some password =>
              simp only [handle, answer_state]
              exact .createLogin
  | login user password =>
      cases user with
      | none => exact .idle (by constructor <;> simp)
      | some user =>
          cases password with
          | none => exact .idle (by constructor <;> simp)
          | some password =>
              simp only [handle]
              split
              · exact .idle (by constructor <;> simp)
              · exact .idle (by constructor <;> simp)
              · next hcheck => exact .login hcheck
  | logout => exact .logout

end Data

end UmnProjects.Litter
