import Minima.Offer
import Minima.Results.Table

/-!
# Notices

What the program puts before the user besides the window itself: messages, the table of a summary
and the dialog about the program.
-/

namespace Minima

/-- Something that is put before the user, or taken away. -/
inductive Notice where
  /-- A window appears. -/
  | shown (kind : WidgetKind)
  /-- A window goes away. -/
  | closed (kind : WidgetKind)
  /-- A message about a failure. -/
  | failure (title text : String)
  /-- The table of a summary. -/
  | summary (s : Summary Float)
  /-- A dialog. -/
  | dialog (w : Widget)

namespace Notice

def summaryTitle : String := "Зведена таблиця результатів"

def methodItems : String :=
  String.join (Offer.all.map fun o => "<li>" ++ o.label ++ "</li>")

/-- A text that may take several lines. -/
def wrapped : Options Float := [Widget.flagIs "wordWrap" true]

def about : Widget :=
  .plain .about [
    Widget.textIs "windowTitle" "Про програму",
    Widget.flagIs "modal" true,
    Widget.wholesAre "size" [560, 520]] [
    .plain .column [Widget.usualMargins] [
      .plain .frame [Widget.textIs "objectName" "aboutColumn"] [
        .plain .column [Widget.usualMargins, Widget.usualGaps] [
          .label "<b>optimkit — локальна мінімізація функцій</b>" wrapped,
          .mutedLabel ("Ітераційний рушій з підключуваними методами, критеріями зупинки " ++
            "та лічильниками викликів f, ∇f, H.") wrapped,
          .plain .frame [Widget.textIs "frameShape" "HLine"] [],
          .label ("<p><b>Методи:</b></p><ul>" ++ methodItems ++ "</ul>") wrapped,
          .label ("<p><b>Статуси:</b> CONTINUE, SUCCESS, NO_PROGRESS (стагнація), " ++
            "OUT_OF_CONTROL (розбіжність).</p>") wrapped,
          .stretch 1]],
      .plain .buttons [Widget.textIs "arg" "Ok"] []]]

end Notice

end Minima
