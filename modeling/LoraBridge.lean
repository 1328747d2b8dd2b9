import LoraBridge.Lfsr
import LoraBridge.Remainder
import LoraBridge.Toggle
import LoraBridge.ListHead
import LoraBridge.Transducer
import LoraBridge.Clocked
import LoraBridge.Packet
import LoraBridge.Checksum
import LoraBridge.Reference
import LoraBridge.Timer
import LoraBridge.Transmitter
import LoraBridge.Worker
import LoraBridge.Linked
import LoraBridge.Wire
import LoraBridge.Station
import LoraBridge.Relation
import LoraBridge.Moves
import LoraBridge.Simulation
import LoraBridge.Refinement
import LoraBridge.Slave
import LoraBridge.Resend
import LoraBridge.Queues
import LoraBridge.Invisible
import LoraBridge.Conservation
import LoraBridge.Respin
import LoraBridge.Master
import LoraBridge.Turns
import LoraBridge.Channel
import LoraBridge.Transaction
import LoraBridge.Agreeing
import LoraBridge.Agreement
import LoraBridge.Pipeline
import LoraBridge.Corruption
import LoraBridge.Containment
import LoraBridge.Seeds
import LoraBridge.Landing
import LoraBridge.Reproducible
import LoraBridge.Lanes
import LoraBridge.Accounting
import LoraBridge.Replay
import LoraBridge.Reinit
import LoraBridge.Blocking
import LoraBridge.Deadlines
import LoraBridge.Collision
import LoraBridge.Flight
import LoraBridge.System
import LoraBridge.Calls
import LoraBridge.Polling
import LoraBridge.Discipline
import LoraBridge.Lossless
import LoraBridge.Emulated
import LoraBridge.Detection
import LoraBridge.Sealed
import LoraBridge.Faults
import LoraBridge.Pace
import LoraBridge.Punctual
import LoraBridge.InTime
import LoraBridge.RealTime
import LoraBridge.Response
import LoraBridge.Progress
