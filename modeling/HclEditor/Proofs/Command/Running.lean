import Mathlib
import HclEditor.Command.Run
import HclEditor.Proofs.Storage.Saving

/-!
# Runs of the program

A command checks its arguments, reads a document and edits it, all of which leaves the output
and the files as they are. Only its last part changes anything: it puts out a text, or it
saves the document to its file. A save that fails leaves the files as they were, so a run that
fails has no effect. In place and printing a command edits the same document, and differs only
in its last part.
-/

namespace HclEditor

namespace CommandM

variable {ε α β : Type} {action : CommandM α} {next : α → CommandM β} {world after : World}

theorem runIn_bind_of_ok {a : α} (haction : action.runIn world = (.ok a, after)) :
    (action >>= next).runIn world = (next a).runIn after := by
  rw [runIn] at haction
  rw [runIn, ExceptT.run_bind, StateT.run_bind, haction]
  rfl

theorem runIn_bind_of_error {error : CommandError}
    (haction : action.runIn world = (.error error, after)) :
    (action >>= next).runIn world = (.error error, after) := by
  rw [runIn] at haction
  rw [runIn, ExceptT.run_bind, StateT.run_bind, haction]
  rfl

theorem runIn_onOutput (cause : ε → CommandError) (put : Sink → Sink × Except ε α)
    (world : World) :
    (onOutput cause put).runIn world =
      ((put world.output).2.mapError cause, { world with output := (put world.output).1 }) :=
  rfl

theorem runIn_onFiles (cause : ε → CommandError)
    (change : FileSystem → FileSystem × Except ε α) (world : World) :
    (onFiles cause change).runIn world =
      ((change world.files).2.mapError cause, { world with files := (change world.files).1 }) :=
  rfl

/-- The action leaves the output and the files as they are. -/
def Reads (action : CommandM α) : Prop :=
  ∀ world, (action.runIn world).2 = world

theorem reads_pure (a : α) : (pure a : CommandM α).Reads :=
  fun _ => rfl

theorem reads_check (cause : ε → CommandError) (result : Except ε α) :
    (check cause result).Reads :=
  fun _ => rfl

theorem reads_ofFiles (cause : ε → CommandError) (read : FileSystem → Except ε α) :
    (ofFiles cause read).Reads :=
  fun _ => rfl

/-- What follows an action that only reads begins in the same world. -/
theorem Reads.runIn_bind (hreads : action.Reads) (next : α → CommandM β) (world : World) :
    (action >>= next).runIn world =
      match (action.runIn world).1 with
      | .ok a => (next a).runIn world
      | .error error => (.error error, world) := by
  have hworld := hreads world
  cases hrun : action.runIn world with
  | mk result after =>
      rw [hrun] at hworld
      subst hworld
      cases result with
      | ok a => exact runIn_bind_of_ok hrun
      | error error => exact runIn_bind_of_error hrun

theorem Reads.bind (hreads : action.Reads) (hnext : ∀ a, (next a).Reads) :
    (action >>= next).Reads := by
  intro world
  rw [hreads.runIn_bind]
  cases (action.runIn world).1 with
  | ok a => exact hnext a world
  | error error => rfl

end CommandM

section Unlimited

variable {sink : Sink} (hroom : sink.room = none)
include hroom

theorem Sink.put_of_unlimited (bytes : Bytes) :
    sink.put bytes = ({ sink with taken := sink.taken ++ bytes }, true) := by
  rw [put, hroom]

/-- Values that cannot be read leave an output as it was. -/
theorem Document.get_cases (query : Query) (strict : Bool) (document : Document) :
    (∃ error, document.get query strict sink = (sink, .error error)) ∨
      ∃ bytes count, document.get query strict sink =
        ({ sink with taken := sink.taken ++ bytes }, .ok count) := by
  rw [Document.get]
  cases document.body.get query strict with
  | error error => exact .inl ⟨error, rfl⟩
  | ok contents =>
      refine .inr ⟨Text.encode (putLines contents), contents.length, ?_⟩
      simp only [Sink.put_of_unlimited hroom]
      rfl

theorem Document.write_of_unlimited (indent : Nat) (document : Document) :
    document.write indent sink =
      ({ sink with taken := sink.taken ++ Text.encode (document.render indent) }, .ok ()) := by
  simp only [Document.write, Sink.put_of_unlimited hroom]
  rfl

end Unlimited

namespace Command

open CommandM

/-- The file that the command names. -/
def file? : Command → Option String
  | .get _ file _ => file
  | .set _ _ file _ _ _ => file
  | .fmt file _ => file

/-- The command is to change its file rather than to print. -/
def inPlace : Command → Bool
  | .get _ _ _ => false
  | .set _ _ _ _ inPlace _ => inPlace
  | .fmt _ inPlace => inPlace

/-- The same command, which prints. -/
def printing : Command → Command
  | .get query file strict => .get query file strict
  | .set query value file type _ strict => .set query value file type false strict
  | .fmt file _ => .fmt file false

/-- The document that the command reads, after the command's edits. -/
def edited (input : Bytes) (settings : Settings) (codec : Gzip.Codec) :
    Command → CommandM Document
  | .get _ file _ => loadDocument input codec file
  | .set query value file type _ strict => do
      let type ← check .type (ValueType.ofTag (type.getD settings.defaultType))
      let query ← check .query (Query.parse query)
      let literal ← check .value (Literal.coerce type value)
      let document ← loadDocument input codec file
      let (changed, result) := document.set query (strict || settings.strict) literal
      let _ ← check .access result
      return changed
  | .fmt file _ => loadDocument input codec file

section Commands

variable (input : Bytes) (settings : Settings) (codec : Gzip.Codec)

theorem reads_loadDocument (file : Option String) : (loadDocument input codec file).Reads := by
  cases file with
  | none => exact reads_check .input (Document.ofBytes input codec)
  | some path => exact reads_ofFiles .load fun files => Document.load files path codec

theorem reads_edited (command : Command) : (command.edited input settings codec).Reads := by
  cases command with
  | get query file strict => exact reads_loadDocument input codec file
  | set query value file type inPlace strict =>
      apply (reads_check _ _).bind
      intro type
      apply (reads_check _ _).bind
      intro query
      apply (reads_check _ _).bind
      intro literal
      apply (reads_loadDocument input codec file).bind
      intro document
      cases document.set query (strict || settings.strict) literal with
      | mk changed result =>
          apply (reads_check _ _).bind
          intro count
          exact reads_pure changed
  | fmt file inPlace => exact reads_loadDocument input codec file

/-- A command that may save edits a document and puts it out or saves it. -/
theorem perform_set (query value : String) (file type : Option String) (inPlace strict : Bool) :
    (Command.set query value file type inPlace strict).perform input settings codec = (do
      requireFile file inPlace
      let document ←
        edited input settings codec (.set query value file type inPlace strict)
      emitDocument settings codec file inPlace document) := by
  simp only [perform, edited, bind_assoc, pure_bind]

theorem perform_fmt (file : Option String) (inPlace : Bool) :
    (Command.fmt file inPlace).perform input settings codec = (do
      requireFile file inPlace
      let document ← edited input settings codec (.fmt file inPlace)
      emitDocument settings codec file inPlace document) := by
  rw [perform, edited]

variable {command : Command} {path : String}

/-- A command that may change its file edits the document and saves it there. -/
theorem perform_eq_save (hfile : command.file? = some path) (hinPlace : command.inPlace = true) :
    command.perform input settings codec = (do
      let document ← command.edited input settings codec
      onFiles .save fun files => document.save settings files path codec) := by
  cases command with
  | get query file strict => cases hinPlace
  | set query value file type inPlace strict =>
      cases hfile
      cases hinPlace
      rw [perform_set]
      rfl
  | fmt file inPlace =>
      cases hfile
      cases hinPlace
      rw [perform_fmt]
      rfl

/-- Printing, it edits the document in the same way. -/
theorem perform_printing_eq (hfile : command.file? = some path)
    (hinPlace : command.inPlace = true) :
    command.printing.perform input settings codec = (do
      let document ← command.edited input settings codec
      onOutput .output (document.write settings.indentSize)) := by
  cases command with
  | get query file strict => cases hinPlace
  | set query value file type inPlace strict =>
      cases hfile
      rw [printing, perform_set]
      rfl
  | fmt file inPlace =>
      cases hfile
      rw [printing, perform_fmt]
      rfl

end Commands

section Modes

variable {command : Command} {path : String} (found : Surroundings) (codec : Gzip.Codec)
  (hfile : command.file? = some path) (hinPlace : command.inPlace = true)
include hfile hinPlace

/-- Either the document cannot be edited, and the command fails in both modes, or it is saved in
the one and printed in the other. -/
theorem run_modes :
    (∃ error, command.run found codec = (.error error, { files := found.files }) ∧
      command.printing.run found codec = (.error error, { files := found.files })) ∨
    ∃ document : Document,
      command.run found codec =
        ((document.save found.settings found.files path codec).2.mapError .save,
          { files := (document.save found.settings found.files path codec).1 }) ∧
      command.printing.run found codec =
        (.ok (), { output := { taken := Text.encode (document.render found.settings.indentSize) }
                   files := found.files }) := by
  have hreads := reads_edited found.input found.settings codec command
  rw [run, run, perform_eq_save _ _ _ hfile hinPlace, perform_printing_eq _ _ _ hfile hinPlace,
    hreads.runIn_bind, hreads.runIn_bind]
  cases ((command.edited found.input found.settings codec).runIn { files := found.files }).1 with
  | error error => exact .inl ⟨error, rfl, rfl⟩
  | ok document =>
      refine .inr ⟨document, runIn_onFiles _ _ _, ?_⟩
      dsimp only
      rw [runIn_onOutput, Document.write_of_unlimited rfl]
      rfl

end Modes

/-- Everything that a command can come to in a world: it fails and leaves the world as it was, it
prints, or it tries to save a document to the file that it names. -/
inductive Ends (settings : Settings) (codec : Gzip.Codec) (command : Command) (world : World) :
    Except CommandError Unit × World → Prop
  | failed (error : CommandError) : Ends settings codec command world (.error error, world)
  | printed (hprints : command.inPlace = false) (bytes : Bytes) :
      Ends settings codec command world
        (.ok (), { world with output :=
          { world.output with taken := world.output.taken ++ bytes } })
  | saved (hinPlace : command.inPlace = true) {path : String}
      (hfile : command.file? = some path) (document : Document) :
      Ends settings codec command world
        ((document.save settings world.files path codec).2.mapError .save,
          { world with files := (document.save settings world.files path codec).1 })

section Runs

variable {input : Bytes} {settings : Settings} {codec : Gzip.Codec} {command : Command}
  {world : World}

/-- Behind an action that only reads, it matters only how the next one can end. -/
theorem Ends.of_reads {α : Type} {action : CommandM α} {next : α → CommandM Unit}
    (hreads : action.Reads)
    (hnext : ∀ a, command.Ends settings codec world ((next a).runIn world)) :
    command.Ends settings codec world ((action >>= next).runIn world) := by
  rw [hreads.runIn_bind]
  cases (action.runIn world).1 with
  | ok a => exact hnext a
  | error error => exact .failed error

variable (hroom : world.output.room = none)
include hroom

/-- Values that can be read are put out at once. -/
theorem ends_get (hprints : command.inPlace = false) (query : Query) (strict : Bool)
    (document : Document) :
    command.Ends settings codec world ((do
      let _ ← onOutput .access (document.get query strict)).runIn world) := by
  have hrun := runIn_onOutput .access (document.get query strict) world
  rcases Document.get_cases hroom query strict document with
    ⟨error, hget⟩ | ⟨bytes, count, hget⟩
  · rw [hget] at hrun
    rw [runIn_bind_of_error hrun]
    exact .failed _
  · rw [hget] at hrun
    rw [runIn_bind_of_ok hrun]
    exact .printed hprints bytes

/-- A document that is read and emitted is printed, or it is saved if the command is in place,
and then the command has to name a file. -/
theorem ends_emitDocument {read : CommandM Document} (hreads : read.Reads) :
    command.Ends settings codec world ((do
      requireFile command.file? command.inPlace
      let document ← read
      emitDocument settings codec command.file? command.inPlace document).runIn world) := by
  cases hinPlace : command.inPlace with
  | false =>
      have hrequired : requireFile command.file? false = pure () := by
        simp [requireFile]
      rw [hrequired, pure_bind]
      apply Ends.of_reads hreads
      intro document
      have hemit : emitDocument settings codec command.file? false document =
          onOutput .output (document.write settings.indentSize) := rfl
      rw [hemit, runIn_onOutput, Document.write_of_unlimited hroom]
      exact .printed hinPlace _
  | true =>
      cases hfile : command.file? with
      | none => exact .failed .noFile
      | some path =>
          have hrequired : requireFile (some path) true = pure () := rfl
          rw [hrequired, pure_bind]
          apply Ends.of_reads hreads
          intro document
          exact .saved hinPlace hfile document

/-- A command whose output takes everything ends in one of these ways. -/
theorem ends_perform (command : Command) :
    command.Ends settings codec world ((command.perform input settings codec).runIn world) := by
  cases command with
  | get query file strict =>
      apply Ends.of_reads (reads_check _ _)
      intro query
      apply Ends.of_reads (reads_loadDocument input codec file)
      intro document
      exact ends_get hroom rfl query _ document
  | set query value file type inPlace strict =>
      rw [perform_set]
      exact ends_emitDocument hroom (reads_edited input settings codec _)
  | fmt file inPlace =>
      rw [perform_fmt]
      exact ends_emitDocument hroom (reads_edited input settings codec _)

end Runs

theorem ends_run (command : Command) (found : Surroundings) (codec : Gzip.Codec) :
    command.Ends found.settings codec { files := found.files } (command.run found codec) :=
  ends_perform rfl command

end Command

namespace Outcome

theorem output_of_taken {outcome : Outcome} {text : String}
    (htaken : outcome.taken = Text.encode text) : outcome.output = text := by
  rw [output, htaken, Text.decode_encode]
  rfl

section Runs

variable {found : Surroundings} {words : List String} {command : Command}

theorem code_ofEnd_eq_zero_iff {result : Except CommandError Unit} {world : World} :
    (ofEnd result world).code = 0 ↔ result = .ok () := by
  cases result <;> simp [ofEnd]

theorem code_ofEnd_cases (result : Except CommandError Unit) (world : World) :
    (ofEnd result world).code = 0 ∨ (ofEnd result world).code = 1 := by
  cases result <;> simp [ofEnd]

@[simp] theorem taken_ofEnd (result : Except CommandError Unit) (world : World) :
    (ofEnd result world).taken = world.output.taken := by
  cases result <;> rfl

@[simp] theorem files_ofEnd (result : Except CommandError Unit) (world : World) :
    (ofEnd result world).files = world.files := by
  cases result <;> rfl

theorem ofWords_eq (hwords : Command.ofWords words = .ok command) (codec : Gzip.Codec) :
    ofWords found words codec = ofEnd (command.run found codec).1 (command.run found codec).2 := by
  rw [ofWords, hwords]

/-- A run that fails puts out nothing and changes no file. A command changes files only if it
is to change its own, and then it puts out nothing and changes nothing but that file and, if
copies are kept, the copy. -/
theorem files_ofWords (hwords : Command.ofWords words = .ok command)
    (hsystem : found.files.WellFormed) (codec : Gzip.Codec) :
    let outcome := ofWords found words codec
    (outcome.code = 0 ∨ outcome.code = 1) ∧
    (command.inPlace = false → outcome.files = found.files) ∧
    (outcome.code = 1 → outcome.taken = [] ∧ outcome.files = found.files) ∧
    (command.inPlace = true → outcome.code = 0 → outcome.taken = [] ∧
      ∃ path, command.file? = some path ∧ outcome.files.working = found.files.working ∧
        ∀ location, found.files.locate path ≠ .ok location →
          ¬ (found.settings.createBackup = true ∧
            found.files.locate (FilePath.backup path) = .ok location) →
          outcome.files.entry? location = found.files.entry? location) := by
  have hends := command.ends_run found codec
  rw [ofWords_eq hwords]
  generalize command.run found codec = ended at hends
  refine ⟨code_ofEnd_cases _ _, ?_⟩
  cases hends with
  | failed error => simp [code_ofEnd_eq_zero_iff]
  | printed hprints bytes => simp [ofEnd, hprints]
  | @saved hinPlace path hfile document =>
      cases hsave : document.save found.settings found.files path codec with
      | mk after result =>
          cases result with
          | error error =>
              rw [Document.eq_of_save_error hsystem hsave]
              simp [code_ofEnd_eq_zero_iff, Except.mapError]
          | ok =>
              refine ⟨by simp [hinPlace], by simp [ofEnd, Except.mapError], ?_⟩
              intro _ _
              refine ⟨rfl, path, hfile, Document.working_of_save hsave, ?_⟩
              intro location hpath hcopy
              apply Document.elsewhere_of_save hsave hpath
              rintro ⟨hkeep, -, hlocate⟩
              exact hcopy ⟨hkeep, hlocate⟩

/-- A value is set in a file of which a copy is kept. -/
theorem files_ofWords_set :
    let found : Surroundings :=
      { input := []
        files := ⟨[(["work"], .directory), (["work", "a.hcl"], .file (Text.encode "a = 1\n")),
          (["work", "b.hcl"], .file (Text.encode "b = 1\n"))], ["work"]⟩
        settings := { createBackup := true } }
    let command : Command := .set "a" "2" (some "a.hcl") (some "int") true false
    let outcome := ofWords found ["set", "-t", "int", "a", "2", "a.hcl", "-i"]
    found.files.WellFormed ∧
      Command.ofWords ["set", "-t", "int", "a", "2", "a.hcl", "-i"] = .ok command ∧
      outcome.code = 0 ∧ outcome.taken = [] ∧
      outcome.files.entry? ["work", "b.hcl"] = found.files.entry? ["work", "b.hcl"] := by
  intro found command outcome
  have hsystem : found.files.WellFormed := by decide +kernel
  have hwords : Command.ofWords ["set", "-t", "int", "a", "2", "a.hcl", "-i"] = .ok command := by
    decide +kernel
  have hcode : outcome.code = 0 := by decide +kernel
  obtain ⟨-, -, -, hdone⟩ := files_ofWords hwords hsystem {}
  obtain ⟨htaken, path, hfile, -, helsewhere⟩ := hdone rfl hcode
  obtain rfl : "a.hcl" = path := Option.some.inj hfile
  refine ⟨hsystem, hwords, hcode, htaken, helsewhere _ ?_ ?_⟩
  · decide +kernel
  · decide +kernel

/-- A command that is to change a file succeeds exactly if it prints a document otherwise. The
file then holds what is printed, whether or not it was gzip data and is gzip data now. -/
theorem ofWords_inPlace_iff {others : List String} {path : String}
    (hwords : Command.ofWords words = .ok command)
    (hothers : Command.ofWords others = .ok command.printing)
    (hfile : command.file? = some path) (hinPlace : command.inPlace = true)
    (hsystem : found.files.WellFormed) {previous : Bytes}
    (hread : found.files.read path = .ok previous)
    (hcopied : found.settings.createBackup = true →
      ∃ kept, found.files.copy path (FilePath.backup path) = .ok kept)
    (codec : Gzip.Codec)
    (hinflates : ∀ data, codec.decompress (codec.compress data) = some data) :
    let changed := ofWords found words codec
    let printed := ofWords found others codec
    (changed.code = 0 ↔
      printed.code = 0 ∧ ∃ document, Document.parse printed.output = .ok document) ∧
    (printed.code = 0 → printed.taken = Text.encode printed.output) ∧
    (changed.code = 0 → ∃ bytes, changed.files.read path = .ok bytes ∧
      decodeText (isGzipPath path || isGzipData bytes) bytes codec = .ok printed.output) := by
  rw [ofWords_eq hwords, ofWords_eq hothers]
  rcases Command.run_modes found codec hfile hinPlace with
    ⟨error, hchanged, hprinted⟩ | ⟨document, hchanged, hprinted⟩
  · rw [hchanged, hprinted]
    simp [code_ofEnd_eq_zero_iff]
  · have houtput : (ofEnd (command.printing.run found codec).1
        (command.printing.run found codec).2).output =
          document.render found.settings.indentSize := by
      apply output_of_taken
      rw [hprinted]
      rfl
    dsimp only
    rw [houtput, hprinted, hchanged]
    refine ⟨?_, fun _ => rfl, ?_⟩
    · rw [code_ofEnd_eq_zero_iff, code_ofEnd_eq_zero_iff, Except.mapError_eq_ok,
        Document.save_eq_ok_iff hsystem hread hcopied]
      simp
    · intro hcode
      have hdone := Except.mapError_eq_ok.mp (code_ofEnd_eq_zero_iff.mp hcode)
      have hsave : document.save found.settings found.files path codec = (_, .ok ()) :=
        Prod.ext rfl hdone
      rw [files_ofEnd]
      exact Document.text_of_save hinflates hsave

/-- Gzip data is under a name that does not say so, and a copy of it is kept. -/
theorem ofWords_inPlace_iff_gzip :
    let found : Surroundings :=
      { input := []
        files := ⟨[(["work"], .directory),
          (["work", "a.hcl"], .file (Gzip.compress (Text.encode "a=1 b=[2,3]")))], ["work"]⟩
        settings := { createBackup := true } }
    let changed := ofWords found ["set", "a", "x", "a.hcl", "--in-place"]
    let printed := ofWords found ["set", "a", "x", "a.hcl"]
    found.files.WellFormed ∧ changed.code = 0 ∧ printed.code = 0 ∧
      (∃ document, Document.parse printed.output = .ok document) ∧
      ∃ bytes, changed.files.read "a.hcl" = .ok bytes ∧
        decodeText (isGzipPath "a.hcl" || isGzipData bytes) bytes = .ok printed.output := by
  intro found changed printed
  have hsystem : found.files.WellFormed := by decide +kernel
  have hwords : Command.ofWords ["set", "a", "x", "a.hcl", "--in-place"] =
      .ok (.set "a" "x" (some "a.hcl") none true false) := by decide +kernel
  have hothers : Command.ofWords ["set", "a", "x", "a.hcl"] =
      .ok (.set "a" "x" (some "a.hcl") none false false) := by decide +kernel
  have hread : found.files.read "a.hcl" =
      .ok (Gzip.compress (Text.encode "a=1 b=[2,3]")) := by decide +kernel
  have hcopied : (found.files.copy "a.hcl" (FilePath.backup "a.hcl")).isOk = true := by
    decide +kernel
  have hcode : changed.code = 0 := by decide +kernel
  obtain ⟨hsucceeds, -, htext⟩ := ofWords_inPlace_iff hwords hothers rfl rfl hsystem hread
    (fun _ => Except.exists_of_isOk hcopied) {} Gzip.decompress_compress
  obtain ⟨hprinted, hparse⟩ := hsucceeds.mp hcode
  exact ⟨hsystem, hcode, hprinted, hparse, htext hcode⟩

end Runs

end Outcome

end HclEditor
