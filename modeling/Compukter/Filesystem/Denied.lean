/-
What a denied call tells its caller.

A call is denied when its capability does not permit one of its paths with the rights that the call needs
there.  A write needs the right to create only when there is no node yet, so whether it is denied depends
on the tree.

Most calls check the rights before they look at the tree.  `write_file`, `replacement_revision` and the calls
built on them look up the parent directory first, and `install_executable_from_rom` even its source and
destination: a denied caller can tell trees apart, unless the call is `Discreet`.
-/
import Compukter.Filesystem.Calls

namespace Compukter.Filesystem

open Fallible OrderedMap Transaction ComputerFileSystem FileRights Forest

variable (fs : ComputerFileSystem)

/-- The node at a path. -/
def nodeAt (path : VirtualPath) : Option Node :=
  match splitMount path with
  | .ok (mount, components) => Forest.find? (fs.directory mount) components
  | .error _ => none

/-- The rights a write needs on its path. -/
def writeRights (path : VirtualPath) : FileRights :=
  if (nodeAt fs path).isSome then WRITE else CREATE ||| WRITE

/-- The capability does not permit the call.  Calls through a handle use no capability. -/
def Denied : Call → Prop
  | .stat capability path => capability.permits path INSPECT = false
  | .list capability path => capability.permits path LIST = false
  | .readSnapshot capability path => capability.permits path READ = false
  | .readExecutable capability path =>
    capability.permits path (INSPECT ||| READ ||| EXECUTE) = false
  | .openFile capability path mode => capability.permits path (openRights mode) = false
  | .createDirectory _ capability path => capability.permits path CREATE = false
  | .writeFile _ capability path _ _ | .replacementRevision capability path
  | .executableInstallRevision capability path | .replaceFileIfRevision _ capability path _ _ _
  | .installExecutable _ capability path _ _ => capability.permits path (writeRights fs path) = false
  | .installExecutableFromRom _ capability _ destination =>
    capability.permits destination (CREATE ||| WRITE) = false
  | .remove _ capability path => capability.permits path DELETE = false
  | .rename _ capability source destination _ =>
    capability.permits source RENAME = false ∨ capability.permits destination RENAME = false
  | .read .. | .close .. | .write .. | .truncate .. => False

/-- The path is not below `/home`, or is a child of it: no directory is looked up on the way. -/
def Shallow (path : VirtualPath) : Prop := path.head? ≠ some homeName ∨ path.length ≤ 2

/-- Nothing in the tree decides how the call ends when it is denied. -/
def Discreet : Call → Prop
  | .writeFile _ capability path _ _ | .replacementRevision capability path
  | .executableInstallRevision capability path | .replaceFileIfRevision _ capability path _ _ _
  | .installExecutable _ capability path _ _ =>
    Shallow path ∨ capability.permits path (CREATE ||| WRITE) = true
  | .installExecutableFromRom _ capability source destination =>
    (source.head? ≠ some romName ∨ source.length ≤ 1) ∨
      capability.permits destination (CREATE ||| WRITE) = true
  | _ => True

variable {sha256 : List UInt8 → Digest}

/-! ## Refusals -/

/-- The call ends with the error and changes nothing. -/
def Refuses {α : Type} (x : Action α) (fs : ComputerFileSystem) (e : FileSystemError) : Prop :=
  run x fs = (.error (.error e), fs)

namespace Refuses

variable {α β : Type} {fs : ComputerFileSystem} {e : FileSystemError}

variable {f : α → Action β} {x : Except FileSystemError α}

theorem check_bind (h : x = .error e) : Refuses (check x >>= f) fs e := by
  subst h
  rfl

theorem after {a : α} (h : x = .ok a) (hf : Refuses (f a) fs e) : Refuses (check x >>= f) fs e := by
  subst h
  exact hf

theorem get_bind {f : ComputerFileSystem → Action β} (hf : Refuses (f fs) fs e) : Refuses (get >>= f) fs e := hf

theorem bind {x : Action α} (h : Refuses x fs e) : Refuses (x >>= f) fs e :=
  run_bind_error h

end Refuses

variable {capability : FileCapability} {path : VirtualPath}

theorem require_denied {rights : FileRights} (h : capability.permits path rights = false) :
    require capability path rights = .error .permissionDenied := by
  rw [require, h]
  rfl

/-- Where the rights are checked with the path alone, the error is known without the tree. -/
theorem mutableTarget_denied (capability : FileCapability) (path : VirtualPath) (rights : FileRights) :
    ∃ e, capability.permits path rights = false → mutableTarget capability path rights = .error e := by
  rw [mutableTarget]
  cases writablePath path with
  | error e => exact ⟨e, fun _ => rfl⟩
  | ok =>
    refine ⟨.permissionDenied, fun h => ?_⟩
    rw [require_denied h]
    rfl

/-- How a denied write of a shallow path ends. -/
def writeError (path : VirtualPath) : FileSystemError :=
  match writablePath path with
  | .error e => e
  | .ok (_, components) =>
    match splitName components with
    | .error e => e
    | .ok _ => .permissionDenied

/-- A shallow path is refused for what it is, or its parent is `/home` itself. -/
theorem writeTarget_of_shallow (hshallow : Shallow path) (fs : ComputerFileSystem) :
    fs.writeTarget path = .error (writeError path) ∨
      ∃ name, path = [homeName, name] ∧ fs.writeTarget path = .ok (.home, name, [], fs.home) ∧
        writeError path = .permissionDenied := by
  rw [writeTarget, writeError]
  cases hpath : writablePath path with
  | error => exact .inl rfl
  | ok target =>
    obtain ⟨_, components⟩ := target
    obtain ⟨rfl, rfl⟩ := writablePath_eq_ok.mp hpath
    cases hname : splitName components with
    | error =>
      refine .inl ?_
      rw [ok_bind]
      dsimp only
      rw [hname]
      rfl
    | ok split =>
      obtain ⟨name, parent⟩ := split
      have hcomponents := splitName_eq_ok.mp hname
      have hparent : parent = [] := by
        rcases hshallow with h | h
        · exact absurd rfl h
        · rw [hcomponents] at h
          simpa using h
      subst hparent
      refine .inr ⟨name, by rw [hcomponents]; rfl, ?_, ?_⟩
      · rw [ok_bind]
        dsimp only
        rw [hname]
        rfl
      · dsimp only
        rw [hname]

theorem nodeAt_child (fs : ComputerFileSystem) (name : Component) : nodeAt fs [homeName, name] = get fs.home name := by
  show find? fs.home [name] = _
  rw [find?_cons]
  cases get fs.home name <;> rfl

variable {fs : ComputerFileSystem}

open Refuses

theorem writeFile_refuses {gate : Gate} {bytes : List UInt8} {executable : Bool} (hshallow : Shallow path)
    (h : capability.permits path (writeRights fs path) = false) :
    Refuses (writeFile sha256 gate capability path bytes executable) fs (writeError path) := by
  refine get_bind ?_
  rcases writeTarget_of_shallow hshallow fs with htarget | ⟨name, rfl, htarget, herror⟩
  · exact check_bind htarget
  · refine after htarget (check_bind ?_)
    rw [writeRights, nodeAt_child] at h
    rw [requireWrite]
    split
    · next hsome =>
      rw [if_pos hsome] at h
      exact require_denied h
    · next hnone =>
      rw [if_neg hnone] at h
      rw [require_denied h]
      rfl

theorem replacementRevision_refuses (hshallow : Shallow path)
    (h : capability.permits path (writeRights fs path) = false) :
    Refuses (replacementRevision capability path) fs (writeError path) := by
  refine get_bind ?_
  rcases writeTarget_of_shallow hshallow fs with htarget | ⟨name, rfl, htarget, herror⟩
  · exact check_bind htarget
  · refine after htarget ?_
    rw [writeRights, nodeAt_child] at h
    dsimp only
    cases hget : get fs.home name with
    | some | none =>
      rw [hget] at h
      exact check_bind (require_denied h)

/-- A write is not denied where both rights are permitted. -/
theorem permits_writeRights (h : capability.permits path (CREATE ||| WRITE) = true) :
    capability.permits path (writeRights fs path) = true := by
  rw [writeRights]
  split
  · exact FileCapability.permits_right h
  · exact h

/-- A source that is not below `/rom` is refused for what it is. -/
theorem installExecutableFromRom_refuses {source : VirtualPath} (h : source.head? ≠ some romName ∨ source.length ≤ 1) :
    ∃ e, ∀ fs gate capability destination,
      Refuses (installExecutableFromRom sha256 gate capability source destination) fs e := by
  cases hmount : splitMount source with
  | error e => exact ⟨e, fun fs gate capability destination => check_bind hmount⟩
  | ok split =>
    obtain ⟨mount, components⟩ := split
    have hsource := splitMount_eq_ok.mp hmount
    cases mount with
    | home =>
      refine ⟨.permissionDenied, fun fs gate capability destination => ?_⟩
      exact after hmount (check_bind rfl)
    | rom =>
      have hnil : components = [] := by
        rcases h with h | h
        · rw [hsource] at h
          exact absurd rfl h
        · rw [hsource] at h
          simpa using h
      subst hnil
      refine ⟨.notFound, fun fs gate capability destination => ?_⟩
      exact after hmount (after rfl (get_bind (check_bind rfl)))

/-- The refusal of a denied call that looks at nothing but its arguments. -/
theorem exists_refuses {call : Call} (h : Discreet call) :
    ∃ e, ∀ fs, Denied fs call → Refuses (perform sha256 call) fs e := by
  -- a write that may create is never denied, any other is refused by its path
  have hwrite {capability : FileCapability} {path : VirtualPath}
      (h : Shallow path ∨ capability.permits path (CREATE ||| WRITE) = true) :
      ∀ fs, capability.permits path (writeRights fs path) = false → Shallow path := by
    intro fs hdenied
    rcases h with h | h
    · exact h
    · rw [permits_writeRights h] at hdenied
      cases hdenied
  cases call with
  | stat | list | readSnapshot | readExecutable | openFile =>
    exact ⟨_, fun fs hd => (check_bind (require_denied hd)).bind⟩
  | read | close | write | truncate => exact ⟨.closed, fun fs hd => hd.elim⟩
  | createDirectory _ capability path =>
    obtain ⟨e, he⟩ := mutableTarget_denied capability path CREATE
    exact ⟨e, fun fs hd => (check_bind (he hd)).bind⟩
  | remove _ capability path =>
    obtain ⟨e, he⟩ := mutableTarget_denied capability path DELETE
    exact ⟨e, fun fs hd => (check_bind (he hd)).bind⟩
  | rename _ capability source destination =>
    cases hsource : mutableTarget capability source RENAME with
    | error e => exact ⟨e, fun fs _ => (check_bind hsource).bind⟩
    | ok =>
      have hpermits := (mutableTarget_eq_ok.mp hsource).2
      obtain ⟨e, he⟩ := mutableTarget_denied capability destination RENAME
      refine ⟨e, fun fs hd => (after hsource (check_bind (he ?_))).bind⟩
      exact hd.resolve_left fun hd => absurd (hd.symm.trans hpermits) (by decide)
  | writeFile =>
    exact ⟨_, fun fs hd => (writeFile_refuses (hwrite h fs hd) hd).bind⟩
  | replacementRevision | executableInstallRevision =>
    exact ⟨_, fun fs hd => (replacementRevision_refuses (hwrite h fs hd) hd).bind⟩
  | replaceFileIfRevision | installExecutable =>
    exact ⟨_, fun fs hd => (replacementRevision_refuses (hwrite h fs hd) hd).bind.bind⟩
  | installExecutableFromRom gate capability source destination =>
    rcases h with h | h
    · obtain ⟨e, he⟩ := @installExecutableFromRom_refuses sha256 source h
      exact ⟨e, fun fs _ => (he fs gate capability destination).bind⟩
    · exact ⟨.closed, fun fs hd => absurd (hd.symm.trans h) (by decide)⟩

/-! ## What an indiscreet call reveals -/

/-- Two trees that a write below a directory tells apart: the directory is missing, or is a file. -/
def withFile (limits : FileSystemLimits) (mount : Mount) (name : Component) (object : ObjectId) : ComputerFileSystem :=
  (withLimits limits).setDirectory mount [(name, .file ⟨object, 0, 0, false⟩)]

theorem findDirectory_file (name : Component) (info : FileInfo) (rest : List Component) :
    findDirectory [(name, .file info)] (name :: rest) = .error .notDirectory := by
  rw [findDirectory, get_cons, if_pos rfl]
  rfl

theorem exists_of_not_shallow (h : ¬Shallow path) :
    ∃ name first rest, path = homeName :: (first :: rest ++ [name]) := by
  rw [Shallow, not_or, not_not] at h
  obtain ⟨hhead, hlength⟩ := h
  obtain ⟨components, rfl⟩ := List.head?_eq_some_iff.mp hhead
  rcases components.eq_nil_or_concat with rfl | ⟨front, name, rfl⟩
  · exact absurd (by simp) hlength
  · cases front with
    | nil => exact absurd (by simp) hlength
    | cons first rest => exact ⟨name, first, rest, by simp⟩

theorem writeTarget_below (fs : ComputerFileSystem) (name first : Component) (rest : List Component) :
    fs.writeTarget (homeName :: (first :: rest ++ [name])) =
      (findDirectory fs.home (first :: rest)).map fun parent => (.home, name, first :: rest, parent) := by
  rw [writeTarget, writablePath_eq_ok.mpr ⟨rfl, rfl⟩, ok_bind]
  dsimp only
  rw [splitName_eq_ok.mpr rfl, ok_bind]
  show (findDirectory fs.home (first :: rest) >>= _) = _
  cases findDirectory fs.home (first :: rest) <;> rfl

theorem find?_file (name : Component) (info : FileInfo) {rest : List Component} (h : rest ≠ []) :
    find? [(name, (.file info : Node))] (name :: rest) = none := by
  rw [find?_cons, get_cons, if_pos rfl]
  simp only [Option.bind_some, if_neg h, Forest.Node.children, find?_empty]

/-- In both trees there is no node at the path, so the write would create one. -/
theorem writeRights_below (limits : FileSystemLimits) (object : ObjectId) (name first : Component)
    (rest : List Component) :
    writeRights (withLimits limits) (homeName :: (first :: rest ++ [name])) = CREATE ||| WRITE ∧
      writeRights (withFile limits .home first object) (homeName :: (first :: rest ++ [name])) = CREATE ||| WRITE := by
  have hmount : splitMount (homeName :: (first :: rest ++ [name])) = .ok (.home, first :: rest ++ [name]) :=
    splitMount_eq_ok.mpr rfl
  constructor
  · show (if (find? [] _).isSome then _ else _) = _
    rfl
  · show (if (find? [(first, (.file ⟨object, 0, 0, false⟩ : Node))] (first :: (rest ++ [name]))).isSome
      then _ else _) = _
    rw [find?_file first _ (by simp)]
    rfl

variable {limits : FileSystemLimits}

/-- The calls that begin with the lookups of a write. -/
theorem indiscreet_write {α : Type} {call : Call} {x : Action α}
    {f : α → Action (Reply × Option Publication)} (hperform : perform sha256 call = x >>= f)
    (hx : ∀ fs e, fs.writeTarget path = .error e → Refuses x fs e)
    (hdenied : ∀ fs, Denied fs call ↔ capability.permits path (writeRights fs path) = false) (hdeep : ¬Shallow path)
    (hpermits : ¬capability.permits path (CREATE ||| WRITE) = true) :
    ∃ fs₁ fs₂, fs₁.limits = limits ∧ fs₂.limits = limits ∧ Denied fs₁ call ∧ Denied fs₂ call ∧
      Refuses (perform sha256 call) fs₁ .notFound ∧ Refuses (perform sha256 call) fs₂ .notDirectory := by
  obtain ⟨name, first, rest, rfl⟩ := exists_of_not_shallow hdeep
  have hrights := writeRights_below limits (sha256 []) name first rest
  refine ⟨withLimits limits, withFile limits .home first (sha256 []), rfl, rfl, ?_, ?_, ?_, ?_⟩
  · rw [hdenied, hrights.1]
    exact Bool.not_eq_true _ ▸ hpermits
  · rw [hdenied, hrights.2]
    exact Bool.not_eq_true _ ▸ hpermits
  · rw [hperform]
    refine (hx _ _ ?_).bind
    rw [writeTarget_below]
    rfl
  · rw [hperform]
    refine (hx _ _ ?_).bind
    rw [writeTarget_below]
    exact congrArg _ (findDirectory_file first ⟨sha256 [], 0, 0, false⟩ rest)

theorem indiscreet_install {gate : Gate} {source destination : VirtualPath}
    (hsource : ¬(source.head? ≠ some romName ∨ source.length ≤ 1))
    (hpermits : ¬capability.permits destination (CREATE ||| WRITE) = true) :
    ∃ fs₁ fs₂ e, fs₁.limits = limits ∧ fs₂.limits = limits ∧
      Denied fs₁ (.installExecutableFromRom gate capability source destination) ∧
      Denied fs₂ (.installExecutableFromRom gate capability source destination) ∧
      Refuses (perform sha256 (.installExecutableFromRom gate capability source destination)) fs₁ .notFound ∧
      Refuses (perform sha256 (.installExecutableFromRom gate capability source destination)) fs₂ e ∧
      e ≠ .notFound := by
  rw [not_or, not_not] at hsource
  obtain ⟨components, rfl⟩ := List.head?_eq_some_iff.mp hsource.1
  obtain ⟨first, rest, rfl⟩ : ∃ first rest, components = first :: rest := by
    cases components with
    | nil => exact absurd (by simp) hsource.2
    | cons first rest => exact ⟨first, rest, rfl⟩
  have hmount : splitMount (romName :: first :: rest) = .ok (.rom, first :: rest) := splitMount_eq_ok.mpr rfl
  have hdenied := Bool.not_eq_true _ ▸ hpermits
  refine ⟨withLimits limits, withFile limits .rom first (sha256 []),
    if rest = [] then .notExecutable else .notDirectory, rfl, rfl, hdenied, hdenied, ?_, ?_, ?_⟩
  · refine (after hmount (after rfl (get_bind ?_))).bind
    rfl
  · refine (after hmount (after rfl (get_bind ?_))).bind
    have hget : OrderedMap.get [(first, (.file ⟨sha256 [], 0, 0, false⟩ : Node))] first =
        some (.file ⟨sha256 [], 0, 0, false⟩) := by rw [get_cons, if_pos rfl]
    by_cases hrest : rest = []
    · subst hrest
      refine after (a := .file ⟨sha256 [], 0, 0, false⟩) ?_ (check_bind rfl)
      show findNode [(first, (.file ⟨sha256 [], 0, 0, false⟩ : Node))] [first] = _
      rw [findNode, hget]
      rfl
    · refine check_bind ?_
      show findNode [(first, (.file ⟨sha256 [], 0, 0, false⟩ : Node))] (first :: rest) = _
      rw [findNode, hget]
      simp [demandSome, hrest]
  · split <;> decide

/-- **A denied call tells nothing about the tree** exactly when it is discreet: then its error is the same
in any two states with the same limits, and neither state is changed. -/
theorem denied_call_discreet_iff (sha256 : List UInt8 → Digest) (limits : FileSystemLimits) (call : Call) :
    (∀ fs₁ fs₂ : ComputerFileSystem, fs₁.limits = limits → fs₂.limits = limits → Denied fs₁ call → Denied fs₂ call →
      ∃ e, run (perform sha256 call) fs₁ = (.error (.error e), fs₁) ∧
        run (perform sha256 call) fs₂ = (.error (.error e), fs₂)) ↔ Discreet call := by
  constructor
  · intro h
    -- from two trees that the call tells apart there is a contradiction
    have hapart {fs₁ fs₂ : ComputerFileSystem} {e₁ e₂ : FileSystemError} (hl₁ : fs₁.limits = limits)
        (hl₂ : fs₂.limits = limits) (hd₁ : Denied fs₁ call) (hd₂ : Denied fs₂ call)
        (hr₁ : Refuses (perform sha256 call) fs₁ e₁) (hr₂ : Refuses (perform sha256 call) fs₂ e₂) : e₁ = e₂ := by
      obtain ⟨e, he₁, he₂⟩ := h fs₁ fs₂ hl₁ hl₂ hd₁ hd₂
      rw [Refuses, he₁] at hr₁
      rw [Refuses, he₂] at hr₂
      cases hr₁
      cases hr₂
      rfl
    have hwrite {capability : FileCapability} {path : VirtualPath} {α : Type} {x : Action α}
        {f : α → Action (Reply × Option Publication)} (hperform : perform sha256 call = x >>= f)
        (hx : ∀ fs e, fs.writeTarget path = .error e → Refuses x fs e)
        (hdenied : ∀ fs, Denied fs call ↔ capability.permits path (writeRights fs path) = false) :
        Shallow path ∨ capability.permits path (CREATE ||| WRITE) = true := by
      by_contra hnot
      rw [not_or] at hnot
      obtain ⟨fs₁, fs₂, hl₁, hl₂, hd₁, hd₂, hr₁, hr₂⟩ :=
        @indiscreet_write sha256 _ _ limits _ _ _ _ hperform hx hdenied hnot.1 hnot.2
      exact absurd (hapart hl₁ hl₂ hd₁ hd₂ hr₁ hr₂) (by decide)
    have hrevision (capability : FileCapability) (path : VirtualPath) (fs : ComputerFileSystem)
        (e : FileSystemError) (he : fs.writeTarget path = .error e) :
        Refuses (replacementRevision capability path) fs e := Refuses.get_bind (Refuses.check_bind he)
    cases call with
    | writeFile =>
      exact hwrite rfl (fun fs e he => Refuses.get_bind (Refuses.check_bind he)) fun _ => Iff.rfl
    | replacementRevision | executableInstallRevision => exact hwrite rfl (hrevision _ _) fun _ => Iff.rfl
    | replaceFileIfRevision | installExecutable =>
      exact hwrite rfl (fun fs e he => (hrevision _ _ fs e he).bind) fun _ => Iff.rfl
    | installExecutableFromRom gate =>
      show _ ∨ _
      by_contra hnot
      rw [not_or] at hnot
      obtain ⟨fs₁, fs₂, e, hl₁, hl₂, hd₁, hd₂, hr₁, hr₂, hne⟩ :=
        @indiscreet_install sha256 _ limits gate _ _ hnot.1 hnot.2
      exact hne (hapart hl₁ hl₂ hd₁ hd₂ hr₁ hr₂).symm
    | _ => trivial
  · intro h fs₁ fs₂ _ _ hd₁ hd₂
    obtain ⟨e, he⟩ := @exists_refuses sha256 call h
    exact ⟨e, he fs₁ hd₁, he fs₂ hd₂⟩

/-- A caller without any right on `/home/rom` learns whether the directory `/home/rom` exists. -/
theorem denied_write_reveals_directory :
    let call : Call := .writeFile openGate (.new [homeName, homeName] OWNER) [homeName, romName, homeName] [] false
    let fs₁ := withLimits FileSystemLimits.testing
    let fs₂ := (run (perform (fun _ => blankDigest) (.createDirectory openGate homeOwner [homeName, romName])) fs₁).2
    Denied fs₁ call ∧ Denied fs₂ call ∧
      (run (perform (fun _ => blankDigest) call) fs₁).1 = .error (.error .notFound) ∧
      (run (perform (fun _ => blankDigest) call) fs₂).1 = .error (.error .permissionDenied) :=
  ⟨rfl, rfl, rfl, rfl⟩

end Compukter.Filesystem
