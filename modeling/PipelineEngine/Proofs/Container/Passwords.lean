import Mathlib.Data.List.Forall2
import PipelineEngine.Container.Basic

/-!
# Passwords of registries

Where credentials differ in the password alone, the launcher is told the same and a step ends the
same: the password is read from the standard input of the login call and nothing else depends on
it.

* `Container.Launch.Alike`: two launches that go the same way, whatever the launcher answers,
  but for passwords that logins read.  `Alike.result_eq` and `Alike.calls` say what follows for
  their runs, by induction on the launch.
* `ContainerProvider.alike_invoke`: invocations with such credentials are alike.
* `ContainerProvider.calls_invoke`: with credentials an invocation is a login, and after a login
  that succeeded a run.
* `ContainerProvider.invoke_password` is the main statement.
-/

namespace PipelineEngine

/-! ## Launches that differ in passwords -/

namespace Container

namespace LaunchCall

/-- The call logs in to a registry. -/
def IsLogin (c : LaunchCall) : Prop := c.args.head? = some "login"

/-- The call runs an image. -/
def IsRun (c : LaunchCall) : Prop := c.args.head? = some "run"

/-- The same call, or the same login with something else to read. -/
structure Alike (a b : LaunchCall) : Prop where
  args : a.args = b.args
  payload : a.payload = b.payload
  stdin : a.IsLogin ∨ a.stdin = b.stdin

theorem Alike.refl (c : LaunchCall) : c.Alike c := ⟨rfl, rfl, .inr rfl⟩

end LaunchCall

/-- The program ended and says that it succeeded. -/
def LaunchEnd.Succeeded : LaunchEnd → Prop
  | .exited code _ _ => code = some 0
  | _ => False

namespace Launch

variable {α : Type} {l m : Launch α} {answers : Nat → LaunchEnd}

/-- Two launches come to the same, or call alike and go on alike whatever is answered. -/
inductive Alike : Launch α → Launch α → Prop
  | done (a : α) : Alike (.done a) (.done a)
  | call {c d : LaunchCall} {next next' : LaunchEnd → Launch α} (h : c.Alike d)
      (hnext : ∀ e, Alike (next e) (next' e)) : Alike (.call c next) (.call d next')

theorem Alike.refl (l : Launch α) : l.Alike l := by
  induction l with
  | done a => exact .done a
  | call c next ih => exact .call (.refl c) ih

/-- The results of two runs with the same answers. -/
theorem Alike.result_eq (h : l.Alike m) (answers : Nat → LaunchEnd) (n : Nat) :
    m.result answers n = l.result answers n := by
  induction h generalizing n with
  | done a => rfl
  | call _ _ ih => exact ih (answers n) (n + 1)

/-- The calls of two runs with the same answers. -/
theorem Alike.calls (h : l.Alike m) (answers : Nat → LaunchEnd) (n : Nat) :
    List.Forall₂ LaunchCall.Alike (l.calls answers n) (m.calls answers n) := by
  induction h generalizing n with
  | done a => exact .nil
  | call hcall _ ih => exact .cons hcall (ih (answers n) (n + 1))

end Launch

end Container

open Container

/-! ## Images and providers that differ in passwords -/

/-- The same image, with the same user name and any password where there are credentials. -/
structure ImageRef.SameButPassword (a b : ImageRef) : Prop where
  username : a.credentials.map Credentials.username = b.credentials.map Credentials.username
  image : a.image = b.image
  tag : a.tag = b.tag

theorem ImageRef.SameButPassword.reference {a b : ImageRef} (h : a.SameButPassword b) :
    a.reference = b.reference := by
  rw [ImageRef.reference, ImageRef.reference, h.image, h.tag]

/-- The same reference, but for the password of an image. -/
inductive ProviderRef.SameButPassword : ProviderRef → ProviderRef → Prop
  | same (r : ProviderRef) : SameButPassword r r
  | image {a b : ImageRef} (h : a.SameButPassword b) : SameButPassword (.image a) (.image b)

namespace ContainerProvider

/-- The same provider, but for the passwords of its builder images. -/
structure SameButPasswords (p q : ContainerProvider) : Prop where
  launcher : p.launcher = q.launcher
  directory : p.directory = q.directory
  payloadFile : p.payloadFile = q.payloadFile
  builders : ∀ name, Option.Rel ImageRef.SameButPassword (p.builders.get? name)
    (q.builders.get? name)

variable {p q : ContainerProvider} {α : Type} {a b : ImageRef} {r s : ProviderRef}

/-- The image that an invocation logs in for. -/
def image? (p : ContainerProvider) : ProviderRef → Option ImageRef
  | .image image => some image
  | .custom builder _ => p.builders.get? builder
  | .builtin _ | .dockerfile _ => none

theorem alike_launch (hp : p.launcher = q.launcher) (step : String) {c d : LaunchCall}
    (hcall : c.Alike d) {next next' : Option Int → List UInt8 → List UInt8 → Attempt α}
    (hnext : ∀ code stdout stderr, (next code stdout stderr).Alike (next' code stdout stderr)) :
    (p.launch step c next).Alike (q.launch step d next') := by
  refine .call hcall fun e => ?_
  cases e with
  | notStaged reason => exact .done _
  | notStarted reason =>
    simp only [hp]
    exact .done _
  | notAwaited reason => exact .done _
  | notWritten reason => exact .done _
  | writerLost reason => exact .done _
  | exited code stdout stderr => exact hnext code stdout stderr

theorem alike_run (hp : p.SameButPasswords q) (step : String) (args : List String) (image : String)
    (input : Payload) : (p.run step args image input).Alike (q.run step args image input) := by
  have hcall : p.runCall args image input = q.runCall args image input := by
    cases input with
    | parsed v => rfl
    | raw bytes => simp only [runCall, hp.payloadFile]
  rw [run, run, hcall]
  exact alike_launch hp.launcher step (.refl _) fun _ _ _ => .refl _

/-- The call that logs in for an image. -/
def loginCall (image : ImageRef) (c : Credentials) : LaunchCall :=
  ⟨["login", "--username", c.username, "--password-stdin"] ++ (registryHost? image.image).toList,
    some (Utf8.encode c.password), none⟩

theorem login_of_credentials {c : Credentials} (h : a.credentials = some c) (step : String)
    (next : Attempt α) : p.login step a next =
      p.launch step (loginCall a c) fun code _ stderr =>
        if code = some 0 then next
        else .done (.error (.unreachable step ("registry login failed: " ++ printed stderr))) := by
  rw [login, h]
  rfl

theorem alike_loginCall (h : a.image = b.image) {c d : Credentials}
    (husername : d.username = c.username) : (loginCall a c).Alike (loginCall b d) :=
  ⟨by rw [loginCall, loginCall, h, husername], rfl, .inl rfl⟩

/-- Logging in is the only use of a password. -/
theorem alike_login (hp : p.SameButPasswords q) (step : String) (himage : a.SameButPassword b)
    {next next' : Attempt α} (hnext : next.Alike next') :
    (p.login step a next).Alike (q.login step b next') := by
  have husername := himage.username
  cases hcredentials : a.credentials with
  | none =>
    rw [hcredentials, Option.map_none, eq_comm, Option.map_eq_none_iff] at husername
    rw [login, login, hcredentials, husername]
    exact hnext
  | some c =>
    rw [hcredentials, Option.map_some, eq_comm, Option.map_eq_some_iff] at husername
    obtain ⟨d, hd, husername⟩ := husername
    rw [login_of_credentials hcredentials, login_of_credentials hd]
    refine alike_launch hp.launcher step (alike_loginCall himage.image husername) fun code _ _ => ?_
    split
    · exact hnext
    · exact .done _

theorem alike_build (hp : p.SameButPasswords q) (step directory : String)
    {next next' : String → Attempt α} (hnext : ∀ image, (next image).Alike (next' image)) :
    (p.build step directory next).Alike (q.build step directory next') := by
  refine alike_launch hp.launcher step (.refl _) fun code stdout _ => ?_
  split
  · exact hnext (printed stdout)
  · exact .done _

/-- Invocations that differ in passwords go the same way. -/
theorem alike_invoke (hp : p.SameButPasswords q) (hr : r.SameButPassword s) (step : String)
    (input : Payload) : (p.invoke step r input).Alike (q.invoke step s input) := by
  cases hr with
  | image himage =>
    rw [invoke, invoke, himage.reference]
    exact alike_login hp step himage (alike_run hp ..)
  | same =>
    cases r with
    | builtin name => exact .done _
    | image image => exact alike_login hp step ⟨rfl, rfl, rfl⟩ (alike_run hp ..)
    | dockerfile directory =>
      exact alike_build hp step directory fun image => alike_run hp step [] image input
    | custom builder path =>
      have hbuilder := hp.builders builder
      have hargs : p.workspaceArgs path = q.workspaceArgs path := by
        rw [workspaceArgs, workspaceArgs, hp.directory]
      rw [invoke, invoke, hargs]
      generalize p.builders.get? builder = image at hbuilder ⊢
      generalize q.builders.get? builder = image' at hbuilder ⊢
      cases hbuilder with
      | none => exact .done _
      | some himage =>
        simp only [himage.reference]
        exact alike_login hp step himage (alike_run hp ..)

/-! ## Logging in before running -/

/-- An invocation that has an image logs in for it and then runs it. -/
theorem exists_invoke_eq {image : ImageRef} (h : p.image? r = some image) (step : String)
    (input : Payload) : ∃ args, p.invoke step r input =
      p.login step image (p.run step args image.reference input) := by
  cases r with
  | builtin name => cases h
  | dockerfile directory => cases h
  | image image' =>
    obtain rfl := Option.some.inj h
    exact ⟨[], rfl⟩
  | custom builder path =>
    have hget : p.builders.get? builder = some image := h
    exact ⟨p.workspaceArgs path, by rw [invoke, hget]⟩

theorem calls_run (step : String) (args : List String) (image : String) (input : Payload)
    (answers : Nat → LaunchEnd) (n : Nat) :
    (p.run step args image input).calls answers n = [p.runCall args image input] := by
  rw [run, launch, Launch.calls]
  cases answers n <;> rfl

theorem isRun_runCall (args : List String) (image : String) (input : Payload) :
    (p.runCall args image input).IsRun := by
  cases input <;> rfl

/-- With credentials the first call is a login that reads the password, and the only other one is a
run after a login that succeeded. -/
theorem calls_invoke {image : ImageRef} {c : Credentials} (himage : p.image? r = some image)
    (hcredentials : image.credentials = some c) (step : String) (input : Payload) :
    ∃ login run : LaunchCall, login.IsLogin ∧ login.stdin = some (Utf8.encode c.password) ∧
      run.IsRun ∧ ∀ answers : Nat → LaunchEnd,
        ((answers 0).Succeeded → (p.invoke step r input).calls answers 0 = [login, run]) ∧
        (¬ (answers 0).Succeeded → (p.invoke step r input).calls answers 0 = [login]) := by
  obtain ⟨args, hinvoke⟩ := exists_invoke_eq himage step input
  refine ⟨loginCall image c, p.runCall args image.reference input, rfl, rfl, isRun_runCall ..,
    fun answers => ?_⟩
  rw [hinvoke, login_of_credentials hcredentials]
  simp only [launch, Launch.calls]
  cases answers 0 with
  | exited code stdout stderr =>
    by_cases hcode : code = some 0
    · simp only [if_pos hcode, calls_run]
      exact ⟨fun _ => trivial, fun hfailed => (hfailed hcode).elim⟩
    · simp only [if_neg hcode, Launch.calls]
      exact ⟨fun hsucceeded => (hcode hsucceeded).elim, fun _ => trivial⟩
  | _ => exact ⟨nofun, fun _ => rfl⟩

/-! ## Two runs -/

/-- Where references and builder images differ in passwords alone, an invocation comes to the same
with the same answers.  The calls are the same, with the same arguments, but for what a login
reads; and where there are credentials the login comes first, reads the password, and nothing is
run unless it succeeded. -/
theorem invoke_password (hp : p.SameButPasswords q) (hr : r.SameButPassword s) (step : String)
    (input : Payload) (answers : Nat → LaunchEnd) :
    (q.invoke step s input).result answers 0 = (p.invoke step r input).result answers 0 ∧
      List.Forall₂ LaunchCall.Alike ((p.invoke step r input).calls answers 0)
        ((q.invoke step s input).calls answers 0) ∧
      ∀ image c, p.image? r = some image → image.credentials = some c →
        ∃ login run : LaunchCall, login.IsLogin ∧ login.stdin = some (Utf8.encode c.password) ∧
          run.IsRun ∧
          ((answers 0).Succeeded → (p.invoke step r input).calls answers 0 = [login, run]) ∧
          (¬ (answers 0).Succeeded → (p.invoke step r input).calls answers 0 = [login]) := by
  have halike := alike_invoke hp hr step input
  refine ⟨halike.result_eq answers 0, halike.calls answers 0, fun image c himage hcredentials => ?_⟩
  obtain ⟨login, run, hlogin, hstdin, hrun, hcalls⟩ := calls_invoke himage hcredentials step input
  exact ⟨login, run, hlogin, hstdin, hrun, hcalls answers⟩

/-- A builder image with two passwords, and a step with bytes to read. -/
theorem invoke_password_builder :
    let image (password : String) : ImageRef := ⟨some ⟨"ci", password⟩, "registry.dev/rust", none⟩
    let provider (password : String) : ContainerProvider :=
      ⟨"docker", [("cargo", image password)], "/work", "/tmp/payload"⟩
    let r := ProviderRef.custom "cargo" "steps/hash"
    let answers : Nat → LaunchEnd := fun _ => .exited (some 0) [] []
    let calls (password : String) : List LaunchCall :=
      ((provider password).invoke "hash" r (.raw [255])).calls answers 0
    (provider "alpha").SameButPasswords (provider "beta") ∧ r.SameButPassword r ∧
      List.Forall₂ LaunchCall.Alike (calls "alpha") (calls "beta") ∧
      ∃ login run : LaunchCall, login.IsLogin ∧ login.stdin = some (Utf8.encode "alpha") ∧
        run.IsRun ∧ calls "alpha" = [login, run] := by
  intro image provider r answers calls
  have hp : (provider "alpha").SameButPasswords (provider "beta") := by
    refine ⟨rfl, rfl, rfl, fun name => ?_⟩
    by_cases hname : name = "cargo"
    · subst hname
      exact .some ⟨rfl, rfl, rfl⟩
    · simpa only [provider, Fields.get?, if_neg hname] using .none
  obtain ⟨-, hcalls, hlogin⟩ := invoke_password hp (.same r) "hash" (.raw [255]) answers
  obtain ⟨login, run, hlogin, hstdin, hrun, hboth, -⟩ := hlogin (image "alpha") _ rfl rfl
  exact ⟨hp, .same r, hcalls, login, run, hlogin, hstdin, hrun, hboth rfl⟩

end ContainerProvider

end PipelineEngine
