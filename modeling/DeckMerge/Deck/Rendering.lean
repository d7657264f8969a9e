import DeckMerge.Deck.Page
import DeckMerge.Package.Registry
import DeckMerge.Package.Validation
import DeckMerge.Part

/-!
Rendering a deck. Pages of records go into the templated parts in order; pages past the last one go into
copies of it, and parts past the last page are filled with empty slots. Nothing is written before all
changed parts have been checked.
-/

namespace DeckMerge.Deck

-- The zero of the core library, whatever else is in scope.
attribute [local instance (high)] Zero.ofOfNat0

open Placeholder (Binding)

inductive Stage
  | loaded
  | bound
  | expanded
  | cleaned
  | serialized
deriving DecidableEq

structure Template where
  config : Config
  package : Package
  /-- The templated parts in page order, each with its text before any writing. -/
  parts : List (Text × Text)

namespace Template

def names (t : Template) : List Text := t.parts.map (·.1)

def templatedSlides (p : Package) : Except Report (List Text) :=
  p.slides.filterM fun name => do return Part.isTemplated (← p.readText name)

/-- The parts that a configuration names, or else the templated slides. -/
def findParts (c : Config) (p : Package) : Except Report (List Text) :=
  if c.parts ≠ [] then
    match c.parts.find? fun name => !p.has name with
    | some name =>
      .error ((Report.plain .templateLoad "Configured template part not found").inPart name)
    | none => .ok c.parts
  else do
    let names ← templatedSlides p
    if names = [] then
      .error (.plain .templateLoad ("No slide in " ++ p.source ++ " contains placeholders"))
    return names

def load (c : Config) (p : Package) : Except Report Template := do
  let names ← findParts c p
  return ⟨c, p, ← names.mapM fun name => do return (name, ← p.readText name)⟩

end Template

/-- What a part is rendered for. -/
inductive Role
  /-- A page that goes into a templated part. -/
  | page
  /-- A page that goes into a new copy of the last templated part. -/
  | copy
  /-- A templated part that has no page. -/
  | surplus
deriving DecidableEq

structure Job where
  name : Text
  source : Text
  binding : Binding
  role : Role

/-- A part that a job was rendered to. -/
abbrev Rendered := Job × Part

def Rendered.isChanged (r : Rendered) : Bool := r.2.text != r.1.source

/-- The jobs for pages from a number on, and for the templated parts that are left. -/
def jobsFrom (capacity : Nat) (last : Text × Text) : Nat → List (Text × Text) → List Binding → List Job
  | _, parts, [] => parts.map fun (name, s) => ⟨name, s, emptyBinding capacity, .surplus⟩
  | n, [], b :: bs =>
    ⟨last.1 ++ "#page" ++ Text.ofNat n, last.2, b, .copy⟩ :: jobsFrom capacity last (n + 1) [] bs
  | n, (name, s) :: parts, b :: bs =>
    ⟨name, s, b, .page⟩ :: jobsFrom capacity last (n + 1) parts bs

namespace Template

def last (t : Template) : Text × Text := t.parts.getLast?.getD ([], [])

/-- The jobs of a rendering. Only slides can be copied. -/
def plan (t : Template) (bs : List Binding) : Except Report (List Job) :=
  if t.parts.length < bs.length ∧ ¬ Package.isSlide t.last.1 then
    .error (.plain .binding (Text.ofNat bs.length ++ " pages needed but only "
      ++ Text.ofNat t.parts.length ++ " templated parts, and " ++ t.last.1
      ++ " is not a slide that can be copied"))
  else .ok (jobsFrom t.config.capacity t.last 1 t.parts bs)

def kept (t : Template) (rs : List Candidate.Record) : List Candidate.Record :=
  rs.take t.config.maxRecords

def bind (t : Template) (rs : List Candidate.Record) : Except Report (List Binding) :=
  if t.kept rs = [] then .error (.plain .noContent "No candidate records to render")
  else bindPages t.config (t.kept rs)

end Template

def Job.run (j : Job) : Except Fault Rendered := do
  return (j, ← Part.render (some j.name) j.source j.binding)

def runAll (jobs : List Job) : Except Fault (List Rendered) := jobs.mapM Job.run

/-- Places results of jobs as they come in, in an order of the jobs' numbers. -/
def collectResults (jobs : List Job) : List Nat → Array (Option Rendered) →
    Except Fault (Array (Option Rendered))
  | [], done => .ok done
  | i :: order, done => do
    let done ← match jobs[i]? with
      | some j => do pure (done.setIfInBounds i (some (← j.run)))
      | none => pure done
    collectResults jobs order done

/-- Runs jobs that are done in an order of their numbers; every number has to be in it. -/
def runInOrder (order : List Nat) (jobs : List Job) : Except Fault (List Rendered) := do
  let done ← collectResults jobs order (Array.replicate jobs.length none)
  match done.toList.mapM id with
  | some results => .ok results
  | none => .error .crashed

/-- Runs jobs: with several workers and jobs, in the order that the workers get done. -/
def runJobs (workers : Nat) (completion : Nat → List Nat) (jobs : List Job) :
    Except Fault (List Rendered) :=
  if workers ≤ 1 ∨ jobs.length ≤ 1 then runAll jobs
  else runInOrder (completion jobs.length) jobs

def check (rs : List Rendered) : Except Report Nat :=
  Package.checkParts ((rs.filter (·.isChanged)).map fun (j, p) => (j.name, p.text))

/-- Writes rendered parts in order, with copies after the page before them; gives the names of the
copies. -/
def place (last : Text) : Option Text → List Rendered → Package.Edit (List Text)
  | _, [] => return []
  | previous, (j, p) :: rs => do
    if j.role = .copy then
      let name ← Package.duplicate last previous (some p.text)
      return name :: (← place last (some name) rs)
    else
      if Rendered.isChanged (j, p) then modify fun package => package.writeText j.name p.text
      place last (if j.role = .page then some j.name else previous) rs

structure Rendering where
  bytes : Bytes
  pages : Nat
  rendered : Nat
  truncated : Nat
  /-- Values of several lines that went in place. -/
  fallbacks : Nat
  residuals : Nat
  written : List Text
  added : List Text

/-- A rendering as far as it came, and the package it leaves behind. -/
structure Attempt where
  stage : Stage
  package : Package
  result : Except Failure Rendering

namespace Template

/-- Renders, where the jobs of several workers are done in a given order. -/
def renderWith (completion : Nat → List Nat) (t : Template) (rs : List Candidate.Record) : Attempt :=
  match t.bind rs with
  | .error r => ⟨.loaded, t.package, .error (.report r)⟩
  | .ok bindings =>
    match t.plan bindings with
    | .error r => ⟨.bound, t.package, .error (.report r)⟩
    | .ok jobs =>
      match runJobs t.config.workers completion jobs with
      | .error f => ⟨.bound, t.package, .error (.fault f)⟩
      | .ok rendered =>
        match check rendered with
        | .error r => ⟨.expanded, t.package, .error (.report r)⟩
        | .ok _ =>
          match (place t.last.1 none rendered).on t.package with
          | (.error f, package) => ⟨.cleaned, package, .error f⟩
          | (.ok added, package) =>
            ⟨.serialized, package, .ok {
              bytes := package.toBytes
              pages := bindings.length
              rendered := (t.kept rs).length
              truncated := rs.length - (t.kept rs).length
              fallbacks := (rendered.map fun r => r.2.fallbacks).sum
              residuals := (rendered.map fun r => r.2.residuals).sum
              written := package.modified
              added := added }⟩

def render (t : Template) (rs : List Candidate.Record) : Attempt := t.renderWith List.range rs

end Template

end DeckMerge.Deck
