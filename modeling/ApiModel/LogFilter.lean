import ApiModel.Text.Blank

/-!
Filter directives for the log. A plain level is scoped to the program's own two targets, any other
text that is not blank is a directive already, and without one the level is `info`.
-/

namespace ApiModel.LogFilter

def targets : List String := ["modelir_common", "modelir_core"]

def levels : List String := ["trace", "debug", "info", "warn", "error"]

def atLevel (level : String) : String :=
  ",".intercalate (targets.map fun t => t ++ "=" ++ level)

def folded (s : String) : String := s.map Char.toLower

def directive : Option String → String
  | none => atLevel "info"
  | some s =>
    if levels.contains (folded s) then atLevel (folded s)
    else if s.toList.all isBlank then atLevel "info"
    else s

end ApiModel.LogFilter
