import DesignTokens.Json.Reader
import DesignTokens.Text.Blank

/-!
# Font metrics

A theme may set the font size and the line height of three control sizes in fields of its own.  A
field that is missing or is no number falls back to its default.  The metrics are declared under
fixed names and without a unit.
-/

namespace DesignTokens

/-- The sizes of a control. -/
inductive ControlSize where
  | small
  | medium
  | large
  deriving DecidableEq, Repr

/-- What a theme can set for a control size. -/
inductive FontMetric where
  | fontSize (size : ControlSize)
  | lineHeight (size : ControlSize)
  deriving DecidableEq, Repr

/-- The numbers that a theme sets. -/
abbrev FontMetrics := FontMetric → JsonNumber

namespace FontMetric

/-- All metrics in the order of their declarations. -/
def all : List FontMetric :=
  [.fontSize .small, .fontSize .medium, .fontSize .large,
    .lineHeight .small, .lineHeight .medium, .lineHeight .large]

/-- The field of a theme that sets a metric. -/
def field : FontMetric → String
  | .fontSize .small => "fontSizeS"
  | .fontSize .medium => "fontSizeM"
  | .fontSize .large => "fontSizeL"
  | .lineHeight .small => "lineHeightS"
  | .lineHeight .medium => "lineHeightM"
  | .lineHeight .large => "lineHeightL"

/-- The name under which a metric is declared. -/
def declaredName : FontMetric → String
  | .fontSize .small => "--cx-font-size-s-default"
  | .fontSize .medium => "--cx-font-size-m-default"
  | .fontSize .large => "--cx-font-size-l-default"
  | .lineHeight .small => "--cx-font-size-s-default-line-height"
  | .lineHeight .medium => "--cx-font-size-m-default-line-height"
  | .lineHeight .large => "--cx-font-size-l-default-line-height"

/-- The default of a metric. -/
def fallback : FontMetric → JsonNumber
  | .fontSize .small => .whole 12
  | .fontSize .medium => .whole 14
  | .fontSize .large => .whole 16
  | .lineHeight .small => .whole 18
  | .lineHeight .medium => .whole 22
  | .lineHeight .large => .whole 24

/-- The number that a field value stands for: a number, or the text of one between blanks. -/
def numberOf? : Json → Option JsonNumber
  | .number value => some value
  | .string text => Json.readNumber? (Text.trimmed text.toList)
  | _ => none

end FontMetric

namespace FontMetrics

/-- The metrics of a theme. -/
def ofTheme (theme : Json) : FontMetrics := fun metric =>
  ((theme.get? metric.field).bind FontMetric.numberOf?).getD metric.fallback

/-- The fields of a theme that are there and hold no number, with their values. -/
def misfits (theme : Json) : List (FontMetric × Json) :=
  FontMetric.all.filterMap fun metric => do
    let value ← theme.get? metric.field
    if (FontMetric.numberOf? value).isSome then none else some (metric, value)

/-- The declarations of the metrics. -/
def declarations (metrics : FontMetrics) : OrderedMap String String :=
  OrderedMap.ofList (FontMetric.all.map fun metric =>
    (metric.declaredName, (metrics metric).toText))

end FontMetrics
end DesignTokens
