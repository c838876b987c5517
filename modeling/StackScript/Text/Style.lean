set_option autoImplicit false

/-!
# Terminal colours

A styled text stands between the control sequence that switches a style on and the one that switches
it off. Styles nest: the last one applied is outermost.
-/
namespace StackScript.Text

inductive Color where
  | red
  | green
  | yellow
  | blue
  | magenta
  | cyan
  | white
  | brightGreen
  | brightYellow
  | brightCyan

def Color.code : Color → String
  | .red => "31"
  | .green => "32"
  | .yellow => "33"
  | .blue => "34"
  | .magenta => "35"
  | .cyan => "36"
  | .white => "37"
  | .brightGreen => "92"
  | .brightYellow => "93"
  | .brightCyan => "96"

def sequence (code : String) : String := "\x1b[" ++ code ++ "m"

def paint (color : Color) (text : String) : String :=
  sequence color.code ++ text ++ sequence "39"

def bold (text : String) : String := sequence "1" ++ text ++ sequence "0"

def dimmed (text : String) : String := sequence "2" ++ text ++ sequence "0"

def padRight (width : Nat) (text : String) : String :=
  text ++ String.ofList (List.replicate (width - text.length) ' ')

end StackScript.Text
