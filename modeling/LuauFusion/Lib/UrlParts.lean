import Mathlib.Data.List.Basic
/-!
# A URL and its text

The components of a URL, each serialized, the text they make, and the positions
in that text at which they start and end: the layout that implementations of the
URL standard store instead of the components themselves.
-/

namespace LuauFusion.Lib

structure UrlAuthority where
  username : List Char
  password : Option (List Char)
  host : List Char
  port : Option Nat
  deriving DecidableEq

structure UrlParts where
  scheme : List Char
  authority : Option UrlAuthority
  path : List Char
  query : Option (List Char)
  fragment : Option (List Char)
  deriving DecidableEq

namespace UrlParts

/-- Without an authority, a path that starts with two slashes would be one. -/
def dotted (p : UrlParts) : Bool := p.authority.isNone && "//".toList.isPrefixOf p.path

/-- From the colon past the user name. -/
def userText (p : UrlParts) : List Char :=
  match p.authority with
  | none => [':']
  | some a => ':' :: '/' :: '/' :: a.username

/-- From there up to the host. -/
def passwordText (p : UrlParts) : List Char :=
  match p.authority with
  | none => []
  | some a =>
    match a.password with
    | some w => ':' :: w ++ ['@']
    | none => if a.username.isEmpty then [] else ['@']

def hostText (p : UrlParts) : List Char :=
  match p.authority with
  | none => []
  | some a => a.host

/-- From the host up to the path. -/
def portText (p : UrlParts) : List Char :=
  match p.authority with
  | none => if p.dotted then ['/', '.'] else []
  | some a =>
    match a.port with
    | some n => ':' :: (toString n).toList
    | none => []

def queryText (p : UrlParts) : List Char :=
  match p.query with
  | some q => '?' :: q
  | none => []

def fragmentText (p : UrlParts) : List Char :=
  match p.fragment with
  | some f => '#' :: f
  | none => []

def href (p : UrlParts) : List Char :=
  p.scheme ++ (p.userText ++ (p.passwordText ++ (p.hostText ++ (p.portText ++ (p.path ++ (p.queryText ++ p.fragmentText))))))

/-! ## Positions -/

def schemeEnd (p : UrlParts) : Nat := p.scheme.length
def usernameEnd (p : UrlParts) : Nat := p.schemeEnd + p.userText.length
def hostStart (p : UrlParts) : Nat := p.usernameEnd + p.passwordText.length
def hostEnd (p : UrlParts) : Nat := p.hostStart + p.hostText.length
def pathStart (p : UrlParts) : Nat := p.hostEnd + p.portText.length
def pathEnd (p : UrlParts) : Nat := p.pathStart + p.path.length
def queryEnd (p : UrlParts) : Nat := p.pathEnd + p.queryText.length
def queryStart (p : UrlParts) : Option Nat := p.query.map fun _ => p.pathEnd
def fragmentStart (p : UrlParts) : Option Nat := p.fragment.map fun _ => p.queryEnd

/-- What every URL's components keep to. -/
structure Valid (p : UrlParts) : Prop where
  host : ∀ a ∈ p.authority, a.host.head? ≠ some ':'
  port : ∀ a ∈ p.authority, ∀ n ∈ a.port, a.host ≠ [] ∧ n < 65536
  path : p.authority.isSome → p.path.head? = none ∨ p.path.head? = some '/'

/-! ## Slices -/

/-- The characters from `a` up to `b`. -/
def slice (a b : Nat) (cs : List Char) : List Char := (cs.take b).drop a

/-- Past a first piece. -/
theorem slice_append (x y : List Char) (m n : Nat) : slice (x.length + m) (x.length + n) (x ++ y) = slice m n y := by
  have htake : (x ++ y).take (x.length + n) = x ++ y.take n := by
    rw [List.take_append, List.take_of_length_le (by omega)]
    congr 2
    omega
  rw [slice, htake, List.drop_append, List.drop_of_length_le (by omega), List.nil_append, slice]
  congr 1
  omega

theorem slice_left (x y : List Char) : slice 0 x.length (x ++ y) = x := by
  rw [slice, List.take_left]
  rfl

theorem slice_left_append (x y z : List Char) : slice 0 (x.length + y.length) (x ++ (y ++ z)) = x ++ y := by
  rw [← List.append_assoc, ← List.length_append, slice_left]

theorem slice_drop (x y : List Char) (n : Nat) : slice n x.length (x ++ y) = x.drop n := by
  rw [slice, List.take_left]

theorem slice_end (a : Nat) (cs : List Char) : slice a cs.length cs = cs.drop a := by
  rw [slice, List.take_length]

variable (p : UrlParts)

theorem href_length : p.href.length = p.queryEnd + p.fragmentText.length := by
  simp only [href, queryEnd, pathEnd, pathStart, hostEnd, hostStart, usernameEnd, schemeEnd, List.length_append]
  omega

theorem slice_afterScheme (m n : Nat) : slice (p.schemeEnd + m) (p.schemeEnd + n) p.href = slice m n
    (p.userText ++ (p.passwordText ++ (p.hostText ++ (p.portText ++ (p.path ++ (p.queryText ++ p.fragmentText)))))) :=
  slice_append _ _ m n

theorem slice_afterUser (m n : Nat) : slice (p.usernameEnd + m) (p.usernameEnd + n) p.href = slice m n
    (p.passwordText ++ (p.hostText ++ (p.portText ++ (p.path ++ (p.queryText ++ p.fragmentText))))) := by
  rw [usernameEnd, Nat.add_assoc, Nat.add_assoc, slice_afterScheme, slice_append]

theorem slice_afterPassword (m n : Nat) : slice (p.hostStart + m) (p.hostStart + n) p.href = slice m n
    (p.hostText ++ (p.portText ++ (p.path ++ (p.queryText ++ p.fragmentText)))) := by
  rw [hostStart, Nat.add_assoc, Nat.add_assoc, slice_afterUser, slice_append]

theorem slice_afterHost (m n : Nat) : slice (p.hostEnd + m) (p.hostEnd + n) p.href = slice m n
    (p.portText ++ (p.path ++ (p.queryText ++ p.fragmentText))) := by
  rw [hostEnd, Nat.add_assoc, Nat.add_assoc, slice_afterPassword, slice_append]

theorem slice_afterPort (m n : Nat) : slice (p.pathStart + m) (p.pathStart + n) p.href = slice m n
    (p.path ++ (p.queryText ++ p.fragmentText)) := by
  rw [pathStart, Nat.add_assoc, Nat.add_assoc, slice_afterHost, slice_append]

theorem slice_afterPath (m n : Nat) : slice (p.pathEnd + m) (p.pathEnd + n) p.href = slice m n
    (p.queryText ++ p.fragmentText) := by
  rw [pathEnd, Nat.add_assoc, Nat.add_assoc, slice_afterPort, slice_append]

theorem slice_afterQuery (m n : Nat) : slice (p.queryEnd + m) (p.queryEnd + n) p.href = slice m n p.fragmentText := by
  rw [queryEnd, Nat.add_assoc, Nat.add_assoc, slice_afterPath, slice_append]

theorem slice_host : slice p.hostStart p.hostEnd p.href = p.hostText := by
  have h := p.slice_afterPassword 0 p.hostText.length
  rwa [slice_left] at h

theorem slice_hostPort : slice p.hostStart p.pathStart p.href = p.hostText ++ p.portText := by
  have h := p.slice_afterPassword 0 (p.hostText.length + p.portText.length)
  rwa [slice_left_append, ← Nat.add_assoc] at h

theorem slice_port : slice p.hostEnd p.pathStart p.href = p.portText := by
  have h := p.slice_afterHost 0 p.portText.length
  rwa [slice_left] at h

/-- The port without its colon. -/
theorem slice_portNumber : slice (p.hostEnd + 1) p.pathStart p.href = p.portText.drop 1 := by
  have h := p.slice_afterHost 1 p.portText.length
  rwa [slice_drop] at h

theorem slice_path : slice p.pathStart p.pathEnd p.href = p.path := by
  have h := p.slice_afterPort 0 p.path.length
  rwa [slice_left] at h

theorem slice_query : slice p.pathEnd p.queryEnd p.href = p.queryText := by
  have h := p.slice_afterPath 0 p.queryText.length
  rwa [slice_left] at h

theorem slice_fragment : p.href.drop p.queryEnd = p.fragmentText := by
  have h := p.slice_afterQuery 0 p.fragmentText.length
  rwa [Nat.add_zero, ← href_length, slice_end, slice, List.take_length] at h

/-! ## Credentials -/

/-- An authority shows in the text. -/
theorem hasAuthority_iff : "://".toList.isPrefixOf (p.href.drop p.schemeEnd) = p.authority.isSome := by
  have hdrop : p.href.drop p.schemeEnd =
      p.userText ++ (p.passwordText ++ (p.hostText ++ (p.portText ++ (p.path ++ (p.queryText ++ p.fragmentText))))) :=
    List.drop_left
  rw [hdrop]
  cases ha : p.authority with
  | some a => simp [userText, ha]
  | none =>
    -- Only a path of two slashes could look like one, and it gets a dot in front.
    by_cases hd : p.dotted = true
    · simp [userText, portText, passwordText, hostText, ha, hd, List.isPrefixOf]
    · have hpath : "//".toList.isPrefixOf p.path = false := by
        rwa [dotted, ha, Option.isNone_none, Bool.true_and, Bool.not_eq_true] at hd
      have hnone : p.userText = [':'] ∧ p.passwordText = [] ∧ p.hostText = [] ∧ p.portText = [] := by
        simp [userText, portText, passwordText, hostText, ha, hd]
      obtain ⟨hu, hw, hh, hp⟩ := hnone
      rw [hu, hw, hh, hp]
      have htail : ∀ c ∈ (p.queryText ++ p.fragmentText).head?, c ≠ '/' := by
        unfold queryText fragmentText
        cases p.query <;> cases p.fragment <;> simp
      rcases hpath' : p.path with _ | ⟨c, _ | ⟨d, cs⟩⟩
      · rcases htext : p.queryText ++ p.fragmentText with _ | ⟨e, es⟩
        · simp [List.isPrefixOf]
        · have hne := htail e (by rw [htext]; rfl)
          simp [List.isPrefixOf, Ne.symm hne]
      · rcases htext : p.queryText ++ p.fragmentText with _ | ⟨e, es⟩
        · simp [List.isPrefixOf]
        · have hne := htail e (by rw [htext]; rfl)
          simp [List.isPrefixOf, Ne.symm hne]
      · rw [hpath'] at hpath
        simpa [List.isPrefixOf] using hpath

theorem slice_username {a : UrlAuthority} (h : p.authority = some a) :
    slice (p.schemeEnd + 3) p.usernameEnd p.href = a.username := by
  have hu : p.userText = ':' :: '/' :: '/' :: a.username := by simp [userText, h]
  have hs := p.slice_afterScheme 3 p.userText.length
  rw [slice_drop] at hs
  rw [usernameEnd, hs, hu]
  rfl

theorem slice_password {a : UrlAuthority} {w : List Char} (h : p.authority = some a) (hw : a.password = some w) :
    slice (p.usernameEnd + 1) (p.hostStart - 1) p.href = w := by
  have hp : p.passwordText = (':' :: w) ++ ['@'] := by simp [passwordText, h, hw]
  have hs := p.slice_afterUser 1 (':' :: w).length
  have hend : p.usernameEnd + (':' :: w).length = p.hostStart - 1 := by
    rw [hostStart, hp, List.length_append]
    simp only [List.length_cons, List.length_nil]
    omega
  rw [hend, hp, List.append_assoc, slice_drop] at hs
  exact hs

/-- The character at the end of a user name. -/
theorem afterUser : p.href[p.usernameEnd]? =
    (p.passwordText ++ (p.hostText ++ (p.portText ++ (p.path ++ (p.queryText ++ p.fragmentText))))).head? := by
  rw [href, usernameEnd, schemeEnd, ← List.append_assoc, ← List.length_append, List.getElem?_append_right (Nat.le_refl _),
    Nat.sub_self, List.head?_eq_getElem?]

theorem colon_iff {a : UrlAuthority} (hv : p.Valid) (h : p.authority = some a) :
    p.href[p.usernameEnd]? = some ':' ↔ a.password.isSome := by
  rw [afterUser]
  cases hw : a.password with
  | some w => simp [passwordText, h, hw]
  | none =>
    refine iff_of_false ?_ (by simp)
    by_cases hu : a.username = []
    · have hnone : p.passwordText = [] := by simp [passwordText, h, hw, hu]
      have hhost : p.hostText = a.host := by simp [hostText, h]
      rw [hnone, hhost, List.nil_append]
      cases hc : a.host with
      | cons c cs =>
        have := hv.host a h
        simpa [hc] using this
      | nil =>
        have hnone : a.port = none := by
          rw [Option.eq_none_iff_forall_not_mem]
          intro n hn
          exact (hv.port a h n hn).1 hc
        have hport : p.portText = [] := by simp [portText, h, hnone]
        rw [hport, List.nil_append, List.nil_append]
        have htail : (p.queryText ++ p.fragmentText).head? ≠ some ':' := by
          unfold queryText fragmentText
          cases p.query <;> cases p.fragment <;> simp
        rcases hv.path (by rw [h]; rfl) with hp | hp
        · rw [List.head?_eq_none_iff] at hp
          rwa [hp, List.nil_append]
        · rw [List.head?_append, hp]
          simp
    · simp [passwordText, h, hw, hu]

end UrlParts

end LuauFusion.Lib
