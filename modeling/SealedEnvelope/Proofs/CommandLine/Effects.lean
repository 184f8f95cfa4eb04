import SealedEnvelope.CommandLine
import SealedEnvelope.Proofs.SecretBuffer

set_option autoImplicit false

/-! # What commands leave behind

A command leaves a tree of files in one of three ways (`Leaves`): as it was, with a result written
to its output, or, if it works on a stream and this fails, without its output. There is a lemma for
each of the functions that commands are made of. Together they say that nothing but the output is
ever changed, and that a failure never leaves a part of a result there (`contained_of_run`). What
would leave an emptied output behind does not come about: a private key is still there when it is
used (`exists_expose_of_readIdentity`). -/

namespace SealedEnvelope.CommandLine

/-! ## Outputs -/

namespace Command

/-- The text of the path that a command writes to. -/
def output? : Command → Option String
  | encrypt request => some request.output
  | decrypt request => some request.output
  | _ => none

/-- Whether a command works on a stream. -/
def streams : Command → Bool
  | encrypt request => request.stream
  | decrypt request => request.stream
  | _ => false

/-- The path of a command's output, if it has one and a file can be written there. -/
def target? (files : Files) (command : Command) : Option Path :=
  command.output?.bind fun text => (files.place text).toOption

end Command

/-- How an operation leaves a tree whose file at `target` it may write. -/
inductive Leaves (files : Files) (target : Option Path) (streams : Bool) : Outcome → Prop
  | untouched (lines : List String) (failure : Option Failure) :
    Leaves files target streams ⟨lines, files, failure⟩
  | written {p : Path} (contents : Bytes) (lines : List String) (htarget : target = some p) :
    Leaves files target streams ⟨lines, files.write p contents, none⟩
  | removed {p : Path} (e : Error) (htarget : target = some p) (hstreams : streams = true) :
    Leaves files target streams ⟨[], files.remove p, some (.engine e)⟩

namespace Leaves

variable {files : Files} {target : Option Path} {streams : Bool} {o : Outcome}

/-- No directory is made or removed. -/
theorem directories_eq (h : Leaves files target streams o) :
    o.files.directories = files.directories := by
  cases h <;> rfl

/-- Other paths hold what they held. -/
theorem contents?_eq (h : Leaves files target streams o) {p : Path} (hp : target ≠ some p) :
    o.files.contents? p = files.contents? p := by
  cases h with
  | untouched => rfl
  | written contents lines htarget =>
    rw [Files.contents?_write, if_neg]
    rintro rfl
    exact hp htarget
  | removed e htarget hstreams =>
    rw [Files.contents?_remove, if_neg]
    rintro rfl
    exact hp htarget

/-- Behind a failure every path holds what it held or nothing. -/
theorem contents?_of_failure (h : Leaves files target streams o) (hfailure : o.failure ≠ none)
    (p : Path) : o.files.contents? p = files.contents? p ∨ o.files.contents? p = none := by
  cases h with
  | untouched => exact Or.inl rfl
  | written => exact absurd rfl hfailure
  | @removed target e htarget hstreams =>
    rw [Files.contents?_remove]
    split
    · exact Or.inr rfl
    · exact Or.inl rfl

/-- Only a stream that the engine fails on loses its output. -/
theorem files_eq_of_failure (h : Leaves files target streams o) {failure : Failure}
    (hfailure : o.failure = some failure)
    (hcause : streams = false ∨ ∀ e, failure ≠ .engine e) : o.files = files := by
  cases h with
  | untouched => rfl
  | written => cases hfailure
  | removed e htarget hstreams =>
    rcases hcause with hbuffered | hcause
    · rw [hbuffered] at hstreams
      cases hstreams
    · exact absurd (Option.some.inj hfailure).symm (hcause e)

end Leaves

/-! ## One function at a time -/

section Functions

variable {config : Config} {files : Files} {cancelled : Stream.Checkpoint → Bool}
  {input output : String} {o : Outcome} {tape rest : Tape}

/-- An outcome without draws. -/
theorem leaves_of_pure {target : Option Path} {streams : Bool} {o' : Outcome}
    (hleaves : Leaves files target streams o')
    (h : (pure o' : Draw Outcome) tape = some (o, rest)) : Leaves files target streams o := by
  obtain ⟨rfl, -⟩ := Draw.pure_eq_some.1 h
  exact hleaves

/-- A buffered operation writes once all has gone well. -/
theorem leaves_of_overFile {operation : Bytes → Sealing Bytes} {line : Nat → Nat → String}
    (h : overFile files input output operation line tape = some (o, rest)) :
    Leaves files (files.place output).toOption false o := by
  unfold overFile at h
  cases hread : files.read input with
  | error fault =>
    rw [hread] at h
    exact leaves_of_pure (.untouched _ _) h
  | ok contents =>
    simp only [hread] at h
    obtain ⟨result, t, -, h⟩ := Draw.bind_eq_some.1 h
    cases result with
    | error e => exact leaves_of_pure (.untouched _ _) h
    | ok result =>
      cases hplace : files.place output with
      | error fault =>
        simp only [hplace] at h
        exact leaves_of_pure (.untouched _ _) h
      | ok target =>
        simp only [hplace] at h
        exact leaves_of_pure (.written _ _ rfl) h

/-- A stream has its output removed again if it fails. Nothing may fail in front of it. -/
theorem leaves_of_overStream {operation : Stream.Source → Sealing Stream.Report}
    {line : Stream.Summary → String} (hbegins : ∀ source, Sealing.Unfailing (operation source))
    (h : overStream files input output operation line tape = some (o, rest)) :
    Leaves files (files.place output).toOption true o := by
  unfold overStream at h
  cases hfind : files.find input with
  | error fault =>
    rw [hfind] at h
    exact leaves_of_pure (.untouched _ _) h
  | ok origin =>
    cases hplace : files.place output with
    | error fault =>
      simp only [hfind, hplace] at h
      exact leaves_of_pure (.untouched _ _) h
    | ok target =>
      simp only [hfind, hplace] at h
      obtain ⟨result, t, hrun, h⟩ := Draw.bind_eq_some.1 h
      cases result with
      | error e => exact (hbegins _ _ _ _ hrun).elim
      | ok report =>
        cases houtcome : report.outcome with
        | error e =>
          simp only [houtcome] at h
          exact leaves_of_pure (.removed e rfl rfl) h
        | ok summary =>
          simp only [houtcome] at h
          exact leaves_of_pure (.written _ _ rfl) h

/-- Nothing is touched before the recipients are read. -/
theorem leaves_of_encryptFile {request : EncryptRequest}
    (h : encryptFile config files cancelled request tape = some (o, rest)) :
    Leaves files (files.place request.output).toOption request.stream o := by
  unfold encryptFile at h
  cases hrecipients : request.readRecipients config with
  | error failure =>
    rw [hrecipients] at h
    exact leaves_of_pure (.untouched _ _) h
  | ok recipients =>
    simp only [hrecipients] at h
    split at h
    · next hstream =>
      rw [hstream]
      exact leaves_of_overStream (fun _ => Sealing.unfailing_draw _) h
    · next hstream =>
      rw [Bool.eq_false_iff.2 hstream]
      exact leaves_of_overFile h

/-- A private key that has been read is there as long as it is needed. -/
theorem exists_expose_of_readIdentity {request : DecryptRequest} {key : SecretBuffer}
    {id : Option Bytes}
    (h : (request.readIdentity config).run tape = some (.ok (key, id), rest)) :
    ∃ octets, privateKeyOctets request.privateKey = .ok octets ∧ key.expose = .ok octets := by
  obtain ⟨key', t, hkey, hid⟩ := Sealing.bind_eq_ok.1 h
  obtain ⟨octets, t', hoctets, hmask⟩ := Sealing.bind_eq_ok.1 hkey
  have hexpose := SecretBuffer.expose_of_ofBytes (Sealing.draw_eq_ok.1 hmask)
  refine ⟨octets, (Sealing.lift_eq_ok.1 hoctets).1, ?_⟩
  cases hgiven : request.recipientId with
  | none =>
    simp only [hgiven, Sealing.pure_eq_ok, Prod.mk.injEq] at hid
    obtain ⟨⟨rfl, -⟩, -⟩ := hid
    exact hexpose
  | some text =>
    simp only [hgiven, Sealing.bind_eq_ok, Sealing.pure_eq_ok, Prod.mk.injEq] at hid
    obtain ⟨_, _, -, ⟨rfl, -⟩, -⟩ := hid
    exact hexpose

/-- Nothing is touched before the key and the identifier are read. -/
theorem leaves_of_decryptFile {request : DecryptRequest}
    (h : decryptFile config files cancelled request tape = some (o, rest)) :
    Leaves files (files.place request.output).toOption request.stream o := by
  unfold decryptFile at h
  obtain ⟨identity, t, hidentity, h⟩ := Draw.bind_eq_some.1 h
  cases identity with
  | error failure => exact leaves_of_pure (.untouched _ _) h
  | ok identity =>
    obtain ⟨octets, -, hexpose⟩ := exists_expose_of_readIdentity hidentity
    simp only [decryptWith] at h
    split at h
    · next hstream =>
      rw [hstream]
      exact leaves_of_overStream
        (fun _ => Sealing.unfailing_lift_bind hexpose (Sealing.unfailing_pure _)) h
    · next hstream =>
      rw [Bool.eq_false_iff.2 hstream]
      exact leaves_of_overFile h

/-- The commands without output touch nothing. -/
theorem leaves_of_command {command : Command} {clock : Int}
    (h : command.run config files clock cancelled tape = some (o, rest)) :
    Leaves files (command.target? files) command.streams o := by
  cases command with simp only [Command.run] at h
  | encrypt request => exact leaves_of_encryptFile h
  | decrypt request => exact leaves_of_decryptFile h
  | keygen json uncompressed =>
    obtain ⟨key, t, -, h⟩ := Draw.bind_eq_some.1 h
    exact leaves_of_pure (.untouched _ _) h
  | generateIds count =>
    obtain ⟨ids, t, -, h⟩ := Draw.bind_eq_some.1 h
    refine leaves_of_pure ?_ h
    cases ids.mapM config.idProvider.toText with
    | ok lines => exact .untouched _ _
    | error e => exact .untouched _ _
  | checkId text =>
    refine leaves_of_pure ?_ h
    cases config.idProvider.ofText text with
    | ok id => exact .untouched _ _
    | error e => exact .untouched _ _
  | showConfig => exact leaves_of_pure (.untouched _ _) h
  | showOverhead recipients => exact leaves_of_pure (.untouched _ _) h
  | version => exact leaves_of_pure (.untouched _ _) h

/-- Nothing is touched before the configuration is read. -/
theorem leaves_of_run {invocation : Invocation} {clock : Int}
    (h : run files clock cancelled invocation tape = some (o, rest)) :
    Leaves files (invocation.command.target? files) invocation.command.streams o := by
  unfold run at h
  cases hconfig : loadConfig files invocation.config with
  | error failure =>
    rw [hconfig] at h
    exact leaves_of_pure (.untouched _ _) h
  | ok config =>
    simp only [hconfig] at h
    exact leaves_of_command h

end Functions

/-! ## Any invocation -/

/-- A command has changed no more of a tree than it may. -/
structure Outcome.Contained (files : Files) (command : Command) (o : Outcome) : Prop where
  directories : o.files.directories = files.directories
  /-- Only the output path may hold something else. -/
  elsewhere : ∀ p, command.target? files ≠ some p → o.files.contents? p = files.contents? p
  /-- Behind a failure the output path holds what it held, or nothing. -/
  failed : o.failure ≠ none →
    ∀ p, o.files.contents? p = files.contents? p ∨ o.files.contents? p = none
  /-- Behind a buffered command that fails everything is as it was. -/
  buffered : o.failure ≠ none → command.streams = false → o.files = files
  /-- So it is behind every failure that is not the engine's. -/
  refused : ∀ failure, o.failure = some failure → (∀ e, failure ≠ .engine e) → o.files = files

/-- **What an invocation may change.** Whatever the files, the configuration and the arguments, and
    wherever a stream is cancelled, no command changes anything but what is at the path of its
    output. If it fails, that path holds what it held before, or nothing, and the latter only if the
    engine fails on a stream. -/
theorem contained_of_run {files : Files} {clock : Int} {cancelled : Stream.Checkpoint → Bool}
    {invocation : Invocation} {tape rest : Tape} {o : Outcome}
    (h : run files clock cancelled invocation tape = some (o, rest)) :
    o.Contained files invocation.command where
  directories := (leaves_of_run h).directories_eq
  elsewhere := fun _ hp => (leaves_of_run h).contents?_eq hp
  failed := (leaves_of_run h).contents?_of_failure
  buffered := by
    intro hfailure hbuffered
    obtain ⟨failure, hfailure⟩ := Option.ne_none_iff_exists'.1 hfailure
    exact (leaves_of_run h).files_eq_of_failure hfailure (Or.inl hbuffered)
  refused := by
    intro failure hfailure hcause
    exact (leaves_of_run h).files_eq_of_failure hfailure (Or.inr hcause)

/-- Decrypting a stream that is cut off in its first octets fails. Its output, which was there, is
    gone, and its input is not. -/
theorem contained_of_run_cut_stream :
    let input : Path := ⟨.above 0, ["sealed"]⟩
    let output : Path := ⟨.above 0, ["plain"]⟩
    let files : Files := ⟨[(input, [1]), (output, [1, 2, 3])], []⟩
    let command : Command := .decrypt
      { privateKey := "0000000000000000000000000000000000000000000000000000000000000001"
        recipientId := none, stream := true, input := "sealed", output := "./plain" }
    ∃ o, run files 0 (fun _ => false) ⟨none, command⟩ (List.replicate 32 0xa5) = some (o, [])
      ∧ o.failure = some (.engine (.streamTruncated "stream header length cut short"))
      ∧ o.Contained files command
      ∧ o.files.contents? output = none ∧ o.files.contents? input = some [1] := by
  intro input output files command
  have hrun : run files 0 (fun _ => false) ⟨none, command⟩ (List.replicate 32 0xa5)
      = some (⟨[], files.remove output, some (.engine
          (.streamTruncated "stream header length cut short"))⟩, []) := by
    decide +kernel
  exact ⟨_, hrun, rfl, contained_of_run hrun, by decide +kernel, by decide +kernel⟩

end SealedEnvelope.CommandLine
