import DeckDoc.Log.Setting
import DeckDoc.Run

namespace DeckDoc

namespace SummaryKind

def name : SummaryKind → String
  | described => "Described"
  | commented => "Commented"
  | placeholder => "Placeholder"

end SummaryKind

namespace Event

def level : Event → LogLevel
  | loaded _ _ => .debug
  | unnamed _ => .warn
  | rendered _ _ => .debug

/-- The module that an event comes from. -/
def target : Event → String
  | loaded _ _ => "kwdoc::models"
  | unnamed _ => "kwdoc::cli::gen"
  | rendered _ _ => "kwdoc::cli::gen"

def fields : Event → List String
  | loaded _ _ => ["message", "path", "name"]
  | unnamed _ => ["message", "path"]
  | rendered _ _ => ["message", "summary", "bytes"]

/-- The line of the log about an event. -/
def line : Event → String
  | loaded path name =>
    "DEBUG kwdoc::models: loaded keyword description path=" ++ path ++ " name=" ++ Text.quoted name
  | unnamed path => "WARN kwdoc::cli::gen: keyword description has no name path=" ++ path
  | rendered summary bytes =>
    "DEBUG kwdoc::cli::gen: rendered keyword summary=" ++ summary.name ++ " bytes=" ++ bytes.repr

end Event

def LogSetting.shows (setting : LogSetting) (e : Event) : Bool :=
  e.level.rank ≤ (setting.levelFor e.target e.fields).rank

theorem LogSetting.shows_ofLevel (level : LogLevel) (e : Event) :
    (ofLevel level).shows e = decide (e.level.rank ≤ level.rank) := rfl

/-- The lines of the log under a setting. -/
def logLines (setting : LogSetting) (events : List Event) : List String :=
  (events.filter setting.shows).map Event.line

end DeckDoc
