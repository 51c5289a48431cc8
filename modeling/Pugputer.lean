import Pugputer.Asmlink.Expressions
import Pugputer.Asmlink.Assembled
import Pugputer.Asmlink.Calc
import Pugputer.Asmlink.Listing
import Pugputer.Banks.Allocator
import Pugputer.Tilekit.Reached
import Pugputer.Tilekit.Resized
import Pugputer.Dos.Allocating
import Pugputer.Dos.FreeChain
import Pugputer.Dos.Calls
import Pugputer.Dos.Loading
import Pugputer.Dos.Saved
import Pugputer.Edit.Saving
import Pugputer.Edit.Search
import Pugputer.Hd6309.Decimal
import Pugputer.Hd6309.Division
import Pugputer.Hd6309.Interrupt
import Pugputer.Hd6309.MultiPrecision
import Pugputer.Hd6309.Nested
import Pugputer.Hd6309.Tfm
import Pugputer.Image.Fat
import Pugputer.Image.RoundTrip
import Pugputer.Lib.Heapsort
import Pugputer.Lib.Run
import Pugputer.Sd.Array
import Pugputer.Serio.Accounting
import Pugputer.Serio.Driver
import Pugputer.Serio.Steps
import Pugputer.Serio.Output
import Pugputer.Serio.Input
import Pugputer.System.Run
import Pugputer.Asmlink.Srecords
import Pugputer.Basic309.Sequential
import Pugputer.Basic309.Edited
import Pugputer.Time.Protocol
import Pugputer.Vidcard.Access
import Pugputer.Vidcard.Timing
import Pugputer.Vidcard.Command
import Pugputer.Vidcard.Copy
import Pugputer.Vidcard.Line
import Pugputer.Vidcard.Circle
import Pugputer.Vidcard.Framing
import Pugputer.Vidcard.Keys
import Pugputer.Vidcard.Registers
import Pugputer.Vidcard.Triangle
import Pugputer.Vidcard.Front
import Pugputer.Linker.Linked
import Pugputer.Operand.Meaning
import Pugputer.Objects.Linked
import Pugputer.Asmlink.Heap
import Pugputer.Asmlink.Symtab
