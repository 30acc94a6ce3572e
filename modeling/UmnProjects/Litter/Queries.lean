import UmnProjects.Foundations.Rows

/-!
The two tables of the site and the queries made of them. What the database makes of the
values bound to a query, and the hashing of passwords, are parameters.
-/
namespace UmnProjects.Litter

open Rows

/-- A row of the table `posts`. -/
structure Post (T : Type) where
  id : Nat
  posttext : T
  user : T
  posttime : Nat
  edittime : Option Nat
  likes : Nat
  deriving Repr, DecidableEq

/-- A row of the table `logins`. -/
structure Login (T : Type) where
  id : Nat
  user : T
  password : T
  deriving Repr, DecidableEq

abbrev Posts (T : Type) := Table (Post T) Post.id

abbrev Logins (T : Type) := Table (Login T) Login.id

/-- What the driver, MySQL and bcrypt do with the values `V` of a request body; `T` are the texts
of the columns. A conversion that gives nothing makes its query fail, a hash or comparison that
gives nothing is a rejected promise. -/
structure Services (V T : Type) where
  whereId : V → Option (Post T → Bool)
  whereUser : V → Option (Login T → Bool)
  /-- Whether the driver binds the value as one. An object becomes `key = value` for each of its
  keys, an array the list of its elements. -/
  single : V → Bool
  posttext : V → Option T
  /-- What an UPDATE makes of the table where the text is no single value: in place of `?` there
  may be assignments of any columns. The rows are those found, the number is the clock. -/
  setColumns : V → (Post T → Bool) → Nat → Posts T → Option (Nat × Posts T)
  postUser : V → Option T
  /-- The text of a new post; in place of `?` there may be an expression in the user's column. -/
  insertText : (user posttext : V) → Option T
  loginUser : V → Option T
  /-- Equality of names under the collation of the column with the UNIQUE constraint. -/
  sameName : T → T → Bool
  hash : (salt : Nat) → V → Option T
  compare : V → T → Option Bool

variable {V T : Type} (services : Services V T)

/-! ### Queries of posts, with the number of rows they affect -/

/-- `INSERT INTO posts (user,posttext) VALUES (?,?)` -/
def insertPost (user posttext : V) (now : Nat) (posts : Posts T) : Option (Nat × Posts T) :=
  match services.postUser user, services.insertText user posttext with
  | some user, some posttext =>
      some (1, posts.insert (fun id => ⟨id, posttext, user, now, none, 0⟩) fun _ => rfl)
  | _, _ => none

/-- `UPDATE posts SET posttext=?,edittime=CURRENT_TIMESTAMP WHERE id=?`: a single text is only
looked at when a row is found. -/
def updateText (id posttext : V) (now : Nat) (posts : Posts T) : Option (Nat × Posts T) :=
  match services.whereId id with
  | none => none
  | some found =>
      if services.single posttext = false then services.setColumns posttext found now posts
      else if posts.rows.any found then
        match services.posttext posttext with
        | none => none
        | some text => some (posts.rows.countP found, posts.update
            (fun p => if found p then { p with posttext := text, edittime := some now } else p)
            fun p => by split <;> rfl)
      else some (0, posts)

/-- `UPDATE posts SET likes = likes + 1 WHERE id=?` -/
def updateLikes (id : V) (posts : Posts T) : Option (Nat × Posts T) :=
  (services.whereId id).map fun found =>
    (posts.rows.countP found, posts.update
      (fun p => if found p then { p with likes := p.likes + 1 } else p) fun p => by split <;> rfl)

/-- `DELETE FROM posts WHERE id=?` -/
def deleteRows (id : V) (posts : Posts T) : Option (Nat × Posts T) :=
  (services.whereId id).map fun found => (posts.rows.countP found, posts.delete found)

theorem updateText_of_single {id posttext : V} (h : services.single posttext = true) (now : Nat)
    (posts : Posts T) : updateText services id posttext now posts =
      (services.whereId id).bind fun found =>
        if posts.rows.any found then (services.posttext posttext).map fun text =>
          (posts.rows.countP found, posts.update
            (fun p => if found p then { p with posttext := text, edittime := some now } else p)
            fun p => by split <;> rfl)
        else some (0, posts) := by
  cases hfound : services.whereId id with
  | none => simp [updateText, hfound]
  | some found =>
      simp only [updateText, hfound, h, Option.bind_some, Bool.true_eq_false, if_false]
      cases services.posttext posttext <;> rfl

theorem length_insertPost {user posttext : V} {now affectedRows : Nat} {posts posts' : Posts T}
    (h : insertPost services user posttext now posts = some (affectedRows, posts')) :
    affectedRows = 1 ∧ posts'.rows.length = posts.rows.length + 1 := by
  simp only [insertPost] at h
  split at h
  · cases h
    exact ⟨rfl, Table.length_insert _ _ _⟩
  · cases h

theorem length_deleteRows {id : V} {affectedRows : Nat} {posts posts' : Posts T}
    (h : deleteRows services id posts = some (affectedRows, posts')) :
    posts'.rows.length + affectedRows = posts.rows.length := by
  obtain ⟨found, _, hresult⟩ := Option.map_eq_some_iff.mp h
  cases hresult
  exact Table.length_delete posts found

/-! ### Queries of logins -/

/-- `SELECT ... FROM logins WHERE user=?` -/
def selectLogins (user : V) (logins : Logins T) : Option (List (Login T)) :=
  (services.whereUser user).map fun found => logins.rows.filter found

/-- `INSERT INTO logins (user,password) VALUES (?,?)`: the user must be new. -/
def insertLogin (user : V) (password : T) (logins : Logins T) : Option (Nat × Logins T) :=
  match services.loginUser user with
  | none => none
  | some user =>
      if logins.rows.any fun row => services.sameName user row.user then none
      else some (1, logins.insert (fun id => ⟨id, user, password⟩) fun _ => rfl)

/-- A number or a string in the column of the texts. -/
def plainText : Nat ⊕ String → Option String
  | .inl n => some (toString n)
  | .inr text => if text.length ≤ 250 then some text else none

/-- Numbers and strings in a request body, and the columns they are compared with. -/
def plainServices : Services (Nat ⊕ String) String where
  whereId value := some fun p => match value with
    | .inl n => p.id == n
    | .inr text => toString p.id == text
  whereUser value := some fun row => match value with
    | .inl _ => false
    | .inr text => row.user == text
  single _ := true
  posttext := plainText
  setColumns _ _ _ _ := none
  insertText _ := plainText
  postUser value := match value with
    | .inl n => some (toString n)
    | .inr text => some text
  loginUser value := match value with
    | .inl n => some (toString n)
    | .inr text => if text.length ≤ 32 then some text else none
  sameName name name' := name.toLower == name'.toLower
  hash _ value := match value with
    | .inl _ => none
    | .inr text => some text
  compare value hashed := match value with
    | .inl _ => none
    | .inr text => some (text == hashed)

end UmnProjects.Litter
