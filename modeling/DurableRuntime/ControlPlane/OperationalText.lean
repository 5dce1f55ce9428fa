import DurableRuntime.Foundation.Patterns

/-!
# Operational text

`redaction.ts`.  The text is the sequence of its UTF-16 code units: the
patterns have no `u` flag, and `slice` counts code units.
-/

namespace DurableRuntime.ControlPlane

open Foundation

abbrev CodeUnit := UInt16

/-- A class of a pattern: the code units of its ranges. -/
def within (ranges : List (Char × Char)) (u : CodeUnit) : Bool :=
  ranges.any fun range => decide (range.1.toNat ≤ u.toNat) && decide (u.toNat ≤ range.2.toNat)

/-- `\w` of `\b` -/
def wordUnit : CodeUnit → Bool := within [('A', 'Z'), ('a', 'z'), ('0', '9'), ('_', '_')]

/-- `\s`: white space and line terminators -/
def spaceRanges : List (Char × Char) :=
  [('\u0009', '\u000D'), (' ', ' '), ('\u00A0', '\u00A0'), ('\u1680', '\u1680'),
    ('\u2000', '\u200A'), ('\u2028', '\u2029'), ('\u202F', '\u202F'), ('\u205F', '\u205F'),
    ('\u3000', '\u3000'), ('\uFEFF', '\uFEFF')]

def spaceUnit : CodeUnit → Bool := within spaceRanges

/-- Letters, digits and `.`, `_`, `~`, `+`, `/`, `-`, in the first pattern. -/
def tokenUnit : CodeUnit → Bool :=
  within [('A', 'Z'), ('a', 'z'), ('0', '9'), ('.', '.'), ('_', '_'), ('~', '~'), ('+', '+'),
    ('/', '/'), ('-', '-')]

/-- `[^\s,;]` -/
def valueUnit (u : CodeUnit) : Bool := !within (spaceRanges ++ [(',', ','), (';', ';')]) u

/-- `[A-Za-z0-9._%+-]` -/
def localUnit : CodeUnit → Bool :=
  within [('A', 'Z'), ('a', 'z'), ('0', '9'), ('.', '.'), ('_', '_'), ('%', '%'), ('+', '+'),
    ('-', '-')]

/-- `[A-Za-z0-9.-]` -/
def domainUnit : CodeUnit → Bool :=
  within [('A', 'Z'), ('a', 'z'), ('0', '9'), ('.', '.'), ('-', '-')]

/-- `[A-Za-z]` -/
def letterUnit : CodeUnit → Bool := within [('A', 'Z'), ('a', 'z')]

def literal (c : Char) : CodeUnit → Bool := within [(c, c)]

/-- `[:=]` -/
def separatorUnit : CodeUnit → Bool := within [(':', ':'), ('=', '=')]

/-- `[_-]` -/
def joinUnit : CodeUnit → Bool := within [('_', '_'), ('-', '-')]

def spell (text : List Char) : Pattern CodeUnit :=
  .all (text.map fun c => .unit (literal c))

/-- The letter of the other case; only these are folded onto the classes of the patterns. -/
def otherCase (u : CodeUnit) : CodeUnit :=
  if within [('a', 'z')] u then UInt16.ofNat (u.toNat - 32)
  else if within [('A', 'Z')] u then UInt16.ofNat (u.toNat + 32)
  else u

/-- The flag `i`. -/
def ignoreCase (accepts : CodeUnit → Bool) (u : CodeUnit) : Bool :=
  accepts u || accepts (otherCase u)

/-- `/\bBearer\s+[…]+=*/gi`, with the class `tokenUnit` -/
def bearerPattern : Pattern CodeUnit :=
  (Pattern.all
    [.boundary wordUnit, spell ['B', 'e', 'a', 'r', 'e', 'r'], .oneOrMore spaceUnit,
      .oneOrMore tokenUnit, .many (literal '=')]).map ignoreCase

/-- `(?:api[_-]?key|token|password|credential)` -/
def keywordPattern : Pattern CodeUnit :=
  .alt (.all [spell ['a', 'p', 'i'], .optional joinUnit, spell ['k', 'e', 'y']])
    (.alt (spell ['t', 'o', 'k', 'e', 'n'])
      (.alt (spell ['p', 'a', 's', 's', 'w', 'o', 'r', 'd'])
        (spell ['c', 'r', 'e', 'd', 'e', 'n', 't', 'i', 'a', 'l'])))

/-- `/\b(?:api[_-]?key|token|password|credential)\s*[:=]\s*[^\s,;]+/gi` -/
def assignmentPattern : Pattern CodeUnit :=
  (Pattern.all
    [.boundary wordUnit, keywordPattern, .many spaceUnit, .unit separatorUnit, .many spaceUnit,
      .oneOrMore valueUnit]).map ignoreCase

/-- `/\b[A-Za-z0-9._%+-]+@[A-Za-z0-9.-]+\.[A-Za-z]{2,}\b/g` -/
def addressPattern : Pattern CodeUnit :=
  .all
    [.boundary wordUnit, .oneOrMore localUnit, .unit (literal '@'), .oneOrMore domainUnit,
      .unit (literal '.'), .unit letterUnit, .oneOrMore letterUnit, .boundary wordUnit]

def secretPatterns : List (Pattern CodeUnit) :=
  [bearerPattern, assignmentPattern, addressPattern]

def codeUnits (text : List Char) : List CodeUnit := text.map fun c => UInt16.ofNat c.toNat

/-- `"[REDACTED]"` -/
def redactedMarker : List CodeUnit :=
  codeUnits ['[', 'R', 'E', 'D', 'A', 'C', 'T', 'E', 'D', ']']

def redactOperationalText (value : List CodeUnit) : List CodeUnit :=
  (secretPatterns.foldl (fun safe pattern => pattern.replaceAll redactedMarker safe) value).take
    500

end DurableRuntime.ControlPlane
