/-!
# Texts about the command

What the command says about itself: a line on how it is used, what its options mean, and an
introduction for whoever gives no arguments.
-/

namespace StackPrimer.Command

/-- How the command is used, in one line. -/
def usage : String := "usage: lalg [-h] [-o OUTPUT] [-c] [-t] [-b] [-v] program\n"

/-- What the options mean. -/
def help : String :=
  usage ++ "
Translator and stack machine for the lalg teaching language.

positional arguments:
  program               try examples/count.lalg for example.

options:
  -h, --help            show this help message and exit
  -o OUTPUT, --output OUTPUT
                        Where to write the bytecode. (Default: next to the
                        program, with suffix .obj)
  -c, --check           Translate and write the bytecode, but do not run it.
  -t, --translate       Print a listing of the bytecode instead of running it.
  -b, --bytecode        The program is already bytecode; just run it.
  -v, --verbose         Say more about what is going on. Twice traces every
                        instruction.
"

/-- What the command is for. -/
def introduction : String :=
  "This is the compiler and virtual machine for the lalg teaching language.

" ++ usage ++ "

For example:

\tlalg program.lalg

will translate program.lalg into program.obj and then run program.obj,
or else try to explain why not.

\tlalg -b program.obj

will run bytecode that was translated earlier.

\tlalg -h

will explain all the arguments.
"

/-- What is said about a command line that makes no sense. -/
def complaint (message : String) : String := usage ++ "lalg: error: " ++ message ++ "\n"

end StackPrimer.Command
