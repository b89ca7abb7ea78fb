import RouteAtlas.Number.Decimal
import RouteAtlas.Text.Quoted

/-!
# Why YAML text cannot be loaded

Either the text is not well formed, or a scalar of it has no value under its tag, or its parts are
nested too deep. The latter two are not faults of the text's form and are reported apart.
-/

namespace RouteAtlas.Yaml

inductive ScalarError where
  | integer (base : Nat) (t : Text)
  | tooManyDigits (count : Nat)
  | float (t : Text)
  | hugeFloat
  | truth (t : Text)
  | emptyNumber
  | noTimestamp
  | timestampEntries
  | year (y : Nat)
  | month
  | day
  | hour
  | minute
  | second
  | offset (shown : Text)
  | codePoint
  | hugeCodePoint
  deriving DecidableEq

namespace ScalarError

def message : ScalarError → Text
  | .integer base t =>
    "invalid literal for int() with base " ++ Text.ofNat base ++ ": " ++ t.quoted.take 200
  | .tooManyDigits count =>
    "Exceeds the limit (4300 digits) for integer string conversion: value has " ++
      Text.ofNat count ++ " digits; use sys.set_int_max_str_digits() to increase the limit"
  | .float t => "could not convert string to float: " ++ t.quoted
  | .hugeFloat => "int too large to convert to float"
  | .truth t => t.quoted
  | .emptyNumber => "string index out of range"
  | .noTimestamp => "'NoneType' object has no attribute 'groupdict'"
  | .timestampEntries => "expected string or bytes-like object, got 'list'"
  | .year y => "year " ++ Text.ofNat y ++ " is out of range"
  | .month => "month must be in 1..12"
  | .day => "day is out of range for month"
  | .hour => "hour must be in 0..23"
  | .minute => "minute must be in 0..59"
  | .second => "second must be in 0..59"
  | .offset shown =>
    "offset must be a timedelta strictly between -timedelta(hours=24) and timedelta(hours=24)" ++
      ", not " ++ shown ++ "."
  | .codePoint => "chr() arg not in range(0x110000)"
  | .hugeCodePoint => "Python int too large to convert to C int"

end ScalarError

inductive LoadError where
  | malformed
  | scalar (e : ScalarError)
  | tooDeep
  deriving DecidableEq

def LoadError.message : LoadError → Text
  | .malformed => "malformed YAML text"
  | .scalar e => e.message
  | .tooDeep => "maximum recursion depth exceeded"

end RouteAtlas.Yaml
