import Sower.Cli.SeedJobs
import Sower.Lib.Traced
import Sower.Nix.Evaluation

/-!
# The build pipeline

`sower build` evaluates a target, builds what it has found, uploads what it has built and
registers the seeds among that. The flags say how far it goes and whether it stops at a
step that had a failure. What Nix, the caches and the server answer is given; what the
pipeline does with it is written down as it happens.
-/

namespace Sower.Cli

open Traced Sower.Deploy

section Data

/-- Status of a build, `Nix.Build`. -/
inductive BuildStatus where
  | ok
  | error
  | timeout
  deriving DecidableEq, Repr

/-- `Nix.Build`; the result that stands for a crashed task has no evaluation. -/
structure Build where
  eval : Option Nix.Eval
  drvPath : Option String
  storePath : Option String
  status : BuildStatus
  /-- A build that wrote nothing to its standard error has none. -/
  log : Option (List String)
  cached : Bool := false
  deriving DecidableEq, Repr

structure SeedTag where
  key : String
  value : String
  deriving DecidableEq, Repr

/-- `SowerClient.SeedManifest`. -/
structure SeedManifest where
  name : String
  seedType : String
  artifact : String
  tags : List (String × String)
  deriving DecidableEq, Repr

/-- `SowerClient.Seed`. -/
structure Seed where
  name : String
  seedType : String
  artifact : String
  tags : List SeedTag
  deriving DecidableEq, Repr

inductive Step where
  | eval
  | build
  | push
  | seed
  deriving DecidableEq, Repr

/-- The flags that the pipeline looks at. -/
structure Flags where
  evalOnly : Bool := false
  push : Bool := false
  seed : Bool := false
  failFast : Bool := false
  nonAuthoritative : Bool := false
  deriving DecidableEq, Repr

structure Options where
  cache : List String := []
  tag : List String := []
  deriving DecidableEq, Repr

inductive PipelineStatus where
  | ok
  | error
  deriving DecidableEq, Repr

/-- `SowerCli.Build`. -/
structure Pipeline where
  flags : Flags
  options : Options
  evals : List Nix.Eval := []
  builds : List Build := []
  status : PipelineStatus := .ok
  deriving DecidableEq, Repr

/-- Why the pipeline ends without a state; an exception is one of the reasons. -/
inductive Stop where
  | missingCache
  | unverified (reason : String)
  | evalFailed
  | buildFailed
  | pushFailed
  | seedFailed
  | raised
  deriving DecidableEq, Repr

end Data

section Answers

/-- How a jobs process ends: with results in the order in which they came, or without. -/
inductive JobsEnd (α : Type) where
  | finished (results : List α)
  | timedOut
  | crashed
  deriving DecidableEq, Repr

/-- Backend of a cache and its configuration. -/
inductive CacheBackend where
  | niks3
  | attic (cache : String)
  | nixCopy (destination : String)
  deriving DecidableEq, Repr

/-- `SowerCli.Cache.parse_url`. -/
def parseUrl (url : String) : CacheBackend :=
  if "niks3://".toList <+: url.toList then .niks3
  else if "attic://".toList <+: url.toList then
    .attic (String.ofList (url.toList.drop "attic://".length))
  else .nixCopy url

/-- How the command of a backend ends. -/
inductive CommandEnd where
  | notFound
  | exit (code : ℕ) (output : String)
  | raised
  deriving DecidableEq, Repr

/-- What `upload` returns. -/
inductive UploadResult where
  | ok (uploaded : List String) (failed : List (String × String))
  | uploadError (backend : String) (exitCode : ℕ) (output : String)
  | refused (reason : String)
  deriving DecidableEq, Repr

/-- What the pipeline is answered. -/
structure World where
  /-- Caches of the configuration. -/
  caches : List String
  /-- `SowerCli.Auth.verify_connection`. -/
  verifyConnection : Except String Unit
  /-- Results of `Nix.Eval.Jobs.run`. -/
  evaluate : JobsEnd Nix.Eval
  /-- Results of `Nix.Build.Jobs.run`. -/
  build : List Nix.Eval → JobsEnd Build
  /-- The command of a backend, given paths. -/
  command : CacheBackend → List String → CommandEnd
  /-- `SowerCli.Repo.get_tags`; none is an exception. -/
  repoTags : Option (List SeedTag)
  /-- The decoded `seed.json` below a store path. -/
  manifest : String → Except String SeedManifest
  /-- `SowerClient.Seed.cast`. -/
  cast : Seed → Except String Seed
  /-- `SowerClient.Seed.create` of the seed at an index, with `rename`; none is an exception. -/
  create : ℕ → Seed → Bool → Option (Except String Unit)

/-- What happens in the course of a pipeline. -/
inductive Effect where
  | started (step : Step)
  | evaluated (ended : JobsEnd Nix.Eval)
  | built (ended : JobsEnd Build)
  | uploaded (url : String) (paths : List String) (result : UploadResult)
  | submitted (build : Build) (seed : Seed) (result : Option (Except String Unit))
  /-- A seed that could not be prepared. -/
  | unprepared (reason : String)
  | raised
  deriving DecidableEq

/-- A traced part of the pipeline. -/
abbrev Part := Run Effect Stop

/-- An exception. -/
def raise {α : Type} : Part α := ⟨[.raised], .error .raised⟩

end Answers

section Jobs

/-- The status of an evaluation is `:ok`. -/
def evalOk (eval : Nix.Eval) : Bool := decide (eval.status = .ok)

def buildOk (build : Build) : Bool := decide (build.status = .ok)

/-- What `run` of a jobs process returns: whether all results are right, and the results. There
are none after a timeout. -/
def JobsEnd.returned {α : Type} (ok : α → Bool) : JobsEnd α → Option (Bool × List α)
  | .finished results => some (results.all ok, results)
  | .timedOut => some (false, [])
  | .crashed => none

end Jobs

section Steps

variable (world : World)

def runEval (state : Pipeline) : Part Pipeline := do
  Run.perform (.started .eval)
  Run.perform (.evaluated world.evaluate)
  match world.evaluate.returned evalOk with
  | none => raise
  | some (true, results) => pure { state with evals := results }
  | some (false, results) =>
    if state.flags.failFast then Run.lift (.error .evalFailed)
    else
      let successful := results.filter evalOk
      if successful = [] then Run.lift (.error .evalFailed)
      else pure { state with evals := successful, status := .error }

/-- `Output.build_errors` takes the last lines of a log, which must be there. -/
def buildErrorsRaise (builds : List Build) : Bool :=
  builds.any fun build => !buildOk build && build.log.isNone

def runBuild (state : Pipeline) : Part Pipeline := do
  Run.perform (.started .build)
  Run.perform (.built (world.build state.evals))
  match (world.build state.evals).returned buildOk with
  | none => raise
  | some (true, builds) => pure { state with builds }
  | some (false, builds) =>
    if buildErrorsRaise builds then raise
    else if state.flags.failFast then Run.lift (.error .buildFailed)
    else
      let successful := builds.filter buildOk
      if successful = [] then Run.lift (.error .buildFailed)
      else pure { state with builds := successful, status := .error }

end Steps

section Push

variable (world : World)

/-- `effective_cache_urls`: the caches of the command line and of the configuration. -/
def effectiveCacheUrls (options : Options) : List String :=
  (options.cache ++ world.caches).eraseDups

/-- What a backend makes of its command; none is an exception. -/
def uploadWith (name missing : String) (paths : List String) :
    CommandEnd → Option UploadResult
  | .notFound => some (.refused missing)
  | .exit 0 _ => some (.ok paths [])
  | .exit code output => some (.uploadError name code output)
  | .raised => none

/-- `upload` of a backend. -/
def CacheBackend.upload (backend : CacheBackend) (paths : List String) : Option UploadResult :=
  if paths = [] then some (.ok [] [])
  else
    let ended := world.command backend paths
    match backend with
    | .niks3 => uploadWith "niks3" "niks3 command not found in PATH" paths ended
    | .attic _ => uploadWith "attic" "attic command not found in PATH" paths ended
    | .nixCopy _ => uploadWith "nix copy" "nix command not found in PATH" paths ended

/-- `{:ok, _}`. -/
def UploadResult.isOk : UploadResult → Bool
  | .ok _ _ => true
  | _ => false

/-- Uploads to one cache after the other; with `fail_fast` an error is the last result. -/
def uploadAll (failFast : Bool) (paths : List String) :
    List String → Part (List (String × UploadResult))
  | [] => pure []
  | url :: urls =>
    match (parseUrl url).upload world paths with
    | none => raise
    | some result => do
      Run.perform (.uploaded url paths result)
      if !result.isOk && failFast then pure [(url, result)]
      else do
        let results ← uploadAll failFast paths urls
        pure ((url, result) :: results)

/-- What becomes of the state after the uploads. -/
def afterPush (state : Pipeline) (builds : List Build) (results : List (String × UploadResult)) :
    Part Pipeline :=
  let successes := results.filter fun result => result.2.isOk
  let failures := results.filter fun result => !result.2.isOk
  if failures ≠ [] ∧ state.flags.failFast = true then Run.lift (.error .pushFailed)
  else if successes = [] then Run.lift (.error .pushFailed)
  else
    let builds := builds.map fun build => { build with cached := true }
    let status := if failures = [] then state.status else .error
    pure { state with builds, status }

def runPush (state : Pipeline) : Part Pipeline := do
  Run.perform (.started .push)
  let builds := state.builds.filter buildOk
  let storePaths := builds.filterMap Build.storePath
  if storePaths = [] then pure state
  else do
    let results ← uploadAll world state.flags.failFast storePaths
      (effectiveCacheUrls world state.options)
    afterPush state builds results

end Push

section Seeds

variable (world : World)

/-- `SowerClient.SeedTag.from_string`; none is an exception. -/
def SeedTag.fromString (tag : String) : Option SeedTag :=
  match tag.toList.splitOn '=' with
  | [key, value] => some ⟨String.ofList key, String.ofList value⟩
  | _ => none

/-- What `seed_candidates` makes of a build; a seed keeps the build it is from. -/
inductive Candidate where
  | seed (build : Build) (seed : Seed)
  | error (reason : String)
  | skip
  deriving DecidableEq, Repr

/-- `seed_from_manifest`; none is an exception. -/
def seedFromManifest (state : Pipeline) (repoTags : List SeedTag) (build : Build)
    (manifest : SeedManifest) : Option Candidate :=
  (state.options.tag.mapM SeedTag.fromString).map fun cliTags =>
    let manifestTags := manifest.tags.map fun tag => ⟨tag.1, tag.2⟩
    let attrs : Seed :=
      { name := manifest.name, seedType := manifest.seedType, artifact := manifest.artifact,
        tags := cliTags ++ manifestTags ++ repoTags }
    match world.cast attrs with
    | .ok seed => .seed build seed
    | .error reason => .error reason

/-- The candidate of a build. There is no joining a path that is not there. -/
def candidate (state : Pipeline) (repoTags : List SeedTag) (build : Build) : Option Candidate :=
  match build.eval with
  | none => none
  | some eval =>
    if seedJob (eval.request.attr.map String.toList) then
      match build.storePath with
      | none => none
      | some path =>
        match world.manifest path with
        | .ok manifest => seedFromManifest world state repoTags build manifest
        | .error reason => some (.error reason)
    else some .skip

def seedCandidates (state : Pipeline) (repoTags : List SeedTag) : Option (List Candidate) :=
  state.builds.mapM (candidate world state repoTags)

/-- The results of `register_seeds`. -/
inductive Registration where
  | ok
  | error (reason : String)
  | skip
  deriving DecidableEq, Repr

/-- `register_seeds` from an index on. -/
def register (rename : Bool) : ℕ → List Candidate → Part (List Registration)
  | _, [] => pure []
  | index, .seed build seed :: rest => do
    Run.perform (.submitted build seed (world.create index seed rename))
    match world.create index seed rename with
    | none => raise
    | some result => do
      let results ← register rename (index + 1) rest
      match result with
      | .ok _ => pure (.ok :: results)
      | .error reason => pure (.error reason :: results)
  | index, .error reason :: rest => do
    Run.perform (.unprepared reason)
    let results ← register rename (index + 1) rest
    pure (.error reason :: results)
  | index, .skip :: rest => do
    let results ← register rename (index + 1) rest
    pure (.skip :: results)

def registerSeeds (state : Pipeline) (repoTags : List SeedTag) : Part (List Registration) :=
  match seedCandidates world state repoTags with
  | none => raise
  | some candidates => register world (!state.flags.nonAuthoritative) 0 candidates

def Registration.isError : Registration → Bool
  | .error _ => true
  | _ => false

/-- What becomes of the state after the registrations. -/
def afterSeed (state : Pipeline) (results : List Registration) : Part Pipeline :=
  if results.any Registration.isError then
    if state.flags.failFast then Run.lift (.error .seedFailed)
    else pure { state with status := .error }
  else pure state

def runSeed (state : Pipeline) : Part Pipeline := do
  Run.perform (.started .seed)
  match world.repoTags with
  | none => raise
  | some repoTags => do
    let results ← registerSeeds world state repoTags
    afterSeed state results

end Seeds

section Runs

variable (world : World)

def buildSteps (flags : Flags) : List Step :=
  if flags.evalOnly then [.eval]
  else if flags.seed then [.eval, .build, .push, .seed]
  else if flags.push then [.eval, .build, .push]
  else [.eval, .build]

def validateOptions (steps : List Step) (options : Options) : Except Stop Unit :=
  if .push ∈ steps ∧ effectiveCacheUrls world options = [] then .error .missingCache
  else if .seed ∈ steps then
    match world.verifyConnection with
    | .ok _ => .ok ()
    | .error reason => .error (.unverified reason)
  else .ok ()

def runStep : Step → Pipeline → Part Pipeline
  | .eval => runEval world
  | .build => runBuild world
  | .push => runPush world
  | .seed => runSeed world

def runSteps : List Step → Pipeline → Part Pipeline
  | [], state => pure state
  | step :: rest, state => do
    let state ← runStep world step state
    runSteps rest state

/-- `SowerCli.Build.run`. -/
def run (flags : Flags) (options : Options) : Part Pipeline :=
  let steps := buildSteps flags
  let state : Pipeline := { flags, options }
  match validateOptions world steps options with
  | .ok _ => runSteps world steps state
  | .error stop => Run.lift (.error stop)

end Runs

end Sower.Cli
