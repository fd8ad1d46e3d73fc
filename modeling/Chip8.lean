import Chip8.Host.Directory
import Chip8.Main
import Chip8.Proofs.Execution
import Chip8.Proofs.Cycle
import Chip8.Proofs.ControlFlow
import Chip8.Proofs.Bounds
import Chip8.Proofs.Decoding
import Chip8.Proofs.Faults
import Chip8.Proofs.Subroutines
import Chip8.Proofs.Operations
import Chip8.Proofs.Delivery
import Chip8.Proofs.Writes
import Chip8.Proofs.Halting
import Chip8.Proofs.Redraw
import Chip8.Proofs.Countdown
import Chip8.Proofs.HeldKeys
import Chip8.Proofs.Waiting
import Chip8.Proofs.Accounting
import Chip8.Proofs.Absorption
import Chip8.Proofs.Loading
import Chip8.Proofs.Randomness
import Chip8.Proofs.KeyEvents
import Chip8.Proofs.Leftovers
import Chip8.Proofs.StraightLine
import Chip8.Proofs.Drawing
import Chip8.Proofs.DrawFlag
import Chip8.Proofs.FlagArithmetic
import Chip8.Proofs.Destinations
import Chip8.Proofs.Frames
import Chip8.Proofs.Transfers
import Chip8.Proofs.Ranges
import Chip8.Proofs.Pictures
import Chip8.Proofs.OpcodeTable
import Chip8.Proofs.Uniformity
import Chip8.Proofs.KeyCharacters
import Chip8.Proofs.Numerals
import Chip8.Proofs.Settings
import Chip8.Proofs.NumericOptions
import Chip8.Proofs.BoundedStack
import Chip8.Proofs.WrittenLines
import Chip8.Proofs.KeySet
