import SqlAssist.Document.Command
import SqlAssist.Session.Basic

/-!
What can be asked of a session, as data, and runs of such requests.
-/

namespace SqlAssist

inductive SessionCommand (μ : Type) where
  | query (q : BufferQuery)
  | takeChanges
  | edit (e : Edit)
  | setText (text : Text)
  | applyTextEdit (e : TextEdit)
  /-- Accepts the first completion with a label. -/
  | accept (p : Position) (label : Text)
  /-- Edits the buffer without the session seeing it. -/
  | editBuffer (e : Edit)
  | entryState (line : Nat)
  | lineHighlights (line : Nat)
  | highlights
  | completions (p : Position)
  | triggersCompletion (typed : Text)
  | hover (p : Position)
  | signatureHelp (p : Position)
  | providers
  | subscribe (name : Text)
  | dispose (name : Text)
  | publish (markers : List μ)
  | markers

inductive SessionAnswer (μ : Type) where
  | buffer (a : BufferAnswer)
  /-- There is no completion with the label. -/
  | notOffered
  | entryState (state? : Option LineState)
  | lineHighlights (highlights? : Option (List Highlight))
  | highlights (highlights : List Highlight)
  | completions (items : List CompletionItem)
  | trigger (b : Bool)
  | hover (hover? : Option Hover)
  | signatureHelp (help? : Option SignatureHelp)
  | providers (p : Providers) (dialectId : Text)
  | bridges (held : Nat)
  | told (deliveries : List (Text × List μ))
  | markers (markers : List μ)

namespace Session

variable {μ : Type}

/-- Goes on with the session that an edit gave, or with the old one if the edit is refused. -/
def afterEdit (s : Session μ) (r : Except EditError (Session μ)) : SessionAnswer μ × Session μ :=
  match r with
  | .ok s => (.buffer (.text s.text), s)
  | .error e => (.buffer (.refused e), s)

def perform (s : Session μ) : SessionCommand μ → SessionAnswer μ × Session μ
  | .query q => (.buffer (s.buffer.answer q), s)
  | .takeChanges =>
    let (taken, s) := s.takeChanges
    (.buffer (.taken taken), s)
  | .edit e => s.afterEdit (s.apply e)
  | .setText text => s.afterEdit (s.setText text)
  | .applyTextEdit e => s.afterEdit (s.applyTextEdit e)
  | .accept p label =>
    match s.accept? p label with
    | some r => s.afterEdit r
    | none => (.notOffered, s)
  | .editBuffer e =>
    match s.editBuffer e with
    | (.ok (), s) => (.buffer (.text s.text), s)
    | (.error e, s) => (.buffer (.refused e), s)
  | .entryState line =>
    let (state?, s) := s.entryState line
    (.entryState state?, s)
  | .lineHighlights line =>
    let (highlights?, s) := s.lineHighlights line
    (.lineHighlights highlights?, s)
  | .highlights =>
    let (highlights, s) := s.highlights
    (.highlights highlights, s)
  | .completions p => (.completions (s.completions p), s)
  | .triggersCompletion typed => (.trigger (s.triggersCompletion typed), s)
  | .hover p => (.hover (s.hover? p), s)
  | .signatureHelp p => (.signatureHelp (s.signatureHelp? p), s)
  | .providers => (.providers s.providers s.dialect.config.id, s)
  | .subscribe name =>
    let s := s.subscribe name
    (.bridges s.board.bridges.length, s)
  | .dispose name =>
    let s := s.dispose name
    (.bridges s.board.bridges.length, s)
  | .publish markers =>
    let (deliveries, s) := s.publish markers
    (.told deliveries, s)
  | .markers => (.markers s.markers, s)

def run (s : Session μ) : List (SessionCommand μ) → List (SessionAnswer μ) × Session μ
  | [] => ([], s)
  | c :: rest =>
    let (first, s) := s.perform c
    let (later, s) := s.run rest
    (first :: later, s)

end Session
end SqlAssist
