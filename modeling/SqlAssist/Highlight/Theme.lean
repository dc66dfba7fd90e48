import SqlAssist.Highlight.Color
import SqlAssist.Highlight.Kind
import SqlAssist.Toml.Decode
import SqlAssist.Toml.Document

/-!
Themes.  A theme has a style for every kind.  A theme file starts from the default theme and
names the kinds it changes.
-/

namespace SqlAssist

open Toml (Value Members)

inductive FontWeight where
  | normal
  | bold
  deriving Repr, DecidableEq

structure HighlightStyle where
  /-- Without a color the text keeps that of the editor. -/
  color? : Option Color := none
  weight : FontWeight := .normal
  italic : Bool := false
  underline : Bool := false
  deriving Repr, DecidableEq

structure Theme where
  name : Text
  style : HighlightKind → HighlightStyle

inductive ThemeError where
  | unreadable
  | unknownKind (name : Text)
  deriving Repr, DecidableEq

namespace ThemeError

def message : ThemeError → String
  | unreadable => "Failed to parse theme"
  | unknownKind name => "unknown highlight kind '" ++ String.ofList name ++ "'"

end ThemeError

namespace HighlightKind

def named (name : Text) : Except ThemeError HighlightKind :=
  match ofName? name with
  | some k => .ok k
  | none => .error (.unknownKind name)

end HighlightKind

namespace FontWeight

def ofToml? (v : Value) : Option FontWeight := do
  let word ← v.word?
  if word = "normal".toList then return normal
  else if word = "bold".toList then return bold
  else none

end FontWeight

namespace Color

def ofToml? (v : Value) : Option Color := do
  let written ← v.text?
  (parse written).toOption

end Color

namespace HighlightStyle

def colored (n : Nat) : HighlightStyle := { color? := some (Color.ofNat n) }

def ofToml? (v : Value) : Option HighlightStyle := do
  let m ← v.members?
  return {
    color? := ← m.maybe 0 "color" Color.ofToml?
    weight := ← m.withDefault 1 "font_weight" FontWeight.ofToml? .normal
    italic := ← m.withDefault 2 "italic" Value.bool? false
    underline := ← m.withDefault 3 "underline" Value.bool? false }

end HighlightStyle

namespace Theme

open HighlightStyle (colored)

def lightStyle : HighlightKind → HighlightStyle
  | .comment => { colored 0x008000 with italic := true }
  | .string => colored 0xa31515
  | .stringEscape => colored 0xee0000
  | .stringEscapeInvalid => { colored 0xcd3131 with underline := true }
  | .stringInvalid => { colored 0xcd3131 with underline := true }
  | .number => colored 0x098658
  | .numberFloat => colored 0x098658
  | .keyword => { colored 0x0000ff with weight := .bold }
  | .type => colored 0x267f99
  | .streamOption => colored 0xaf00db
  | .function => colored 0x795e26
  | .windowFunction => { colored 0xc27c0e with weight := .bold }
  | .identifier => colored 0x001080
  | .operator => colored 0x000000
  | .bracket => colored 0x0431fa
  | .delimiter => colored 0x000000
  | .whitespace => {}
  | .default => {}

def light : Theme := { name := "Stream SQL Light".toList, style := lightStyle }

/-- Whether a theme is the default one in its name and in every style. -/
def isLight (t : Theme) : Bool :=
  t.name == light.name && HighlightKind.all.all fun k => t.style k == light.style k

def setStyle (t : Theme) (k : HighlightKind) (s : HighlightStyle) : Theme :=
  { t with style := fun other => if other = k then s else t.style other }

/-- The contents of a theme file: a name, and styles by the names of their kinds. -/
def contents? (document : Text) : Option (Option Text × List (Text × HighlightStyle)) := do
  let m := Members.byName (← Toml.parse? document)
  let name? ← m.maybe 0 "name" Value.text?
  let styles ← m.withDefault 1 "styles" (Value.map? HighlightStyle.ofToml?) []
  return (name?, styles)

def parse (document : Text) : Except ThemeError Theme :=
  match contents? document with
  | none => .error .unreadable
  | some (name?, styles) =>
    styles.foldlM (fun t (key, s) => return t.setStyle (← HighlightKind.named key) s)
      { light with name := name?.getD light.name }

end Theme
end SqlAssist
