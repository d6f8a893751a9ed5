import Minima.Json.Encode
import Minima.Window.Run
import Minima.Window.View

/-!
# The window as JSON

Widgets with their properties, charts with their strokes, and what can be seen of the window.
-/

namespace Minima

/-- The colour of something, as an object of its own. -/
def Json.colour (colour : String) : Json := .obj [("text", .str colour)]

/-- A cell: its text alone, unless there is more to it. -/
def Json.cell (c : Cell) : Json :=
  let more :=
    (c.colour?.map fun colour => ("foreground", Json.colour colour)).toList ++
      (c.hint?.map fun hint => ("toolTip", Json.str hint)).toList
  if more.isEmpty then .str c.text else .arr [.str c.text, .obj more]

def Json.cells (rows : List (List Cell)) : Json := .arr (rows.map fun row => .arr (row.map .cell))

/-- The first `n` rows of the history, and the last one. -/
def Json.history (n : Nat) (h : History Float) : Json :=
  let rows := h.cells
  .obj [("rows", .nat rows.length), ("first", .cells (rows.take n)),
    ("last", .cells (rows.drop (rows.length - 1)))]

namespace Precision

variable (w : Precision)

/-! ## Widgets -/

/-- What a widget shows besides its properties. -/
def content : WidgetContent → List (String × Json)
  | .nothing => []
  | .choices items index =>
    [("items", .arr (items.map fun (text, key?) => .arr [.str text, .option .str key?])),
      ("index", .nat index)]
  | .table columns rows cells =>
    [("horizontalHeader", w.options columns), ("verticalHeader", w.options rows),
      ("rows", .cells cells)]

mutual

def widget : Widget → Json
  | .stretch n => .arr [.str "stretch", .nat n]
  | .spacing n => .arr [.str "spacing", .nat n]
  | .node kind properties content parts =>
    let children := match parts with
      | [] => []
      | _ => [("children", .arr (widgets parts))]
    .obj ([("class", .str kind.className), ("props", w.options properties)] ++
      w.content content ++ children)

def widgets : List Widget → List Json
  | [] => []
  | v :: rest => widget v :: widgets rest

end

/-! ## Charts -/

/-- How many numbers are written in full. -/
def fullSize : Nat := 24

/-- Some of many things, written one by one. -/
def sampled {α : Type} (shape : List Nat) (masked : Nat) (l : Array α) (f : α → Json) : Json :=
  let step := max 1 (l.size / 12)
  let sample := (List.range (l.size / step + 1)).filterMap fun i => l[i * step]?.map f
  .obj [("shape", .shape shape), ("masked", .nat masked), ("sample", .arr sample)]

def argument : Argument → Json
  | .setting (.items l) =>
    if fullSize < l.length then sampled [l.length] 0 l.toArray w.setting
    else w.setting (.items l)
  | .setting s => w.setting s
  | .numbers t true =>
    let hidden (x : Float) : Bool := !x.isFinite
    sampled t.shape (t.entries.countP hidden) t.entries fun x =>
      if hidden x then .null else w.float x
  | .numbers t false =>
    if fullSize < t.entries.size then sampled t.shape 0 t.entries w.float else w.tensor t

def stroke (s : Stroke) : Json :=
  .arr [.str s.verb, .arr (s.arguments.map w.argument), w.options s.details]

def chart (c : Chart) : Json := .obj [
  ("calls", .arr (c.strokes.toList.map w.stroke)), ("draws", .nat c.draws),
  ("layouts", .nat c.layouts)]

/-! ## The window -/

def notice : Notice → Json
  | .shown kind => .arr [.str "show", .str kind.className]
  | .closed kind => .arr [.str "close", .str kind.className]
  | .failure title text =>
    .arr [.str "message", .obj [("icon", .str "Critical"), ("windowTitle", .str title),
      ("text", .str text), ("standardButtons", .str "Ok")]]
  | .summary s =>
    .arr [.str "summary", .str Notice.summaryTitle, .str s.bestText, .cells s.cells]
  | .dialog v => .arr [.str "dialog", w.widget v]

/-- What can be seen of the window, with the notices that have come up. -/
def window (v : Window) (notices : Array Notice) : Json :=
  let page := v.gallery.page.index
  .obj [
    ("message", .str v.message), ("stats", .arr (v.counters.map .str)),
    ("style", .option .str v.statusStyle?), ("page", .arr [.nat page, .nat page]),
    ("rows", .nat v.history.rows.size), ("events", .arr (notices.toList.map w.notice))]

/-- The controls: the keys of the choices, each with whether it matters, and what else is set. -/
def controls (c : Controls) : Json :=
  let choice (key : String) (enabled : Bool) : Json := .arr [.str key, .bool enabled]
  .obj [
    ("function", choice c.problem.key true), ("method", choice c.method.key c.methodEnabled),
    ("line_search", choice c.search c.searchEnabled), ("stop", choice c.stopKind c.stopEnabled),
    ("x0", .str c.startText), ("eps", w.float c.eps), ("max_iter", .whole c.limit),
    ("run_all", .bool c.all), ("time", .bool c.timed), ("problem", .str c.problemText),
    ("builtin", .str c.methodText)]

def selection (s : Selection Float) : Json := .obj [
  ("function_key", .str s.problem), ("method_key", .str s.method),
  ("x0", .option w.tensor s.start?), ("eps", w.float s.eps), ("max_iter", .whole s.limit),
  ("stop_kind", .str s.stopKind), ("line_search_key", .str s.search),
  ("run_all_methods", .bool s.all), ("time_test", .bool s.elapsed?.isSome)]

end Precision

def Palette.json (p : Palette) : Json := .obj [
  ("background", .str p.background), ("surface", .str p.surface),
  ("surface_alt", .str p.surfaceAlt), ("text_main", .str p.textMain),
  ("text_muted", .str p.textMuted), ("text_inverse", .str p.textInverse),
  ("accent", .str p.accent), ("accent_alt", .str p.accentAlt), ("border", .str p.border),
  ("ok", .str p.ok), ("warn", .str p.warn), ("error", .str p.error)]

def Json.look : Json := .obj [
  ("palette", .obj (Theme.roles.map fun (role, colour) => (role, .str colour))),
  ("font", .obj [("font", .arr [.str Theme.fontFamily, .nat Theme.fontSize])]),
  ("styleSheet", .str Theme.sheet)]

end Minima
