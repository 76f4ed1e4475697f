import RatLang.Command
import RatLang.Command.Arguments
import RatLang.Path
import RatLang.Text.Quoted

/-!
# Shell completion

The scripts that teach a shell to complete the command line. Without an argument the user's own shell
is meant.
-/
namespace RatLang

/-- The lines of the script for bash. -/
def bashCompletion : List String :=
  ["_ratc_complete() \x7b",
    "\tlocal cur opts",
    "\tCOMPREPLY=()",
    "\tcur=\"$\x7bCOMP_WORDS[COMP_CWORD]\x7d\"",
    "\tif [[ \"$cur\" == \"-\"* ]]; then",
    "\t\topts=$(\"$\x7bCOMP_WORDS[@]:0:$COMP_CWORD\x7d\" \"$\x7bcur\x7d\" --generate-bash-completion)",
    "\telse",
    "\t\topts=$(\"$\x7bCOMP_WORDS[@]:0:$COMP_CWORD\x7d\" --generate-bash-completion)",
    "\tfi",
    "\tCOMPREPLY=($(compgen -W \"$\x7bopts\x7d\" -- \"$\x7bcur\x7d\"))",
    "\treturn 0",
    "\x7d",
    "complete -o bashdefault -o default -F _ratc_complete ratc"]

/-- The lines of the script for zsh. -/
def zshCompletion : List String :=
  ["#compdef ratc",
    "_ratc() \x7b",
    "\tlocal -a opts",
    "\tlocal cur",
    "\tcur=$\x7bwords[-1]\x7d",
    "\tif [[ \"$cur\" == \"-\"* ]]; then",
    "\t\topts=(\"$\x7b(@f)$($\x7bwords[@]:0:#words[@]-1\x7d $\x7bcur\x7d --generate-bash-completion)\x7d\")",
    "\telse",
    "\t\topts=(\"$\x7b(@f)$($\x7bwords[@]:0:#words[@]-1\x7d --generate-bash-completion)\x7d\")",
    "\tfi",
    "\tif [[ \"$\x7bopts[1]\x7d\" != \"\" ]]; then",
    "\t\t_describe 'values' opts",
    "\telse",
    "\t\t_files",
    "\tfi",
    "\x7d",
    "compdef _ratc ratc"]

/-- The script for a shell. -/
def completionScript? (shell : Text) : Option (List String) :=
  if shell == bytes "bash" then some bashCompletion
  else if shell == bytes "zsh" then some zshCompletion
  else none

/-- Prints a completion script. -/
def completionCommand (s : Setting) (a : Arguments) : Outcome :=
  let asked := a.rest.headD []
  let shell := if asked.isEmpty then Path.base s.shell else asked
  match completionScript? shell with
  | some lines => s.print (lines.flatMap fun l => Text.line (bytes l))
  | none => s.fail (bytes "Unsupported shell for autocomplete: " ++ shell.quoted)

end RatLang
