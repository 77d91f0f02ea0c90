import MessagePassing.Main
import MessagePassing.Pipeline
import MessagePassing.Proofs.Execution
import MessagePassing.Proofs.Overflow
import MessagePassing.Proofs.Identifiers
import MessagePassing.Proofs.Modules
import MessagePassing.Proofs.Stacks
import MessagePassing.Proofs.Correspondence
import MessagePassing.Proofs.Locality
import MessagePassing.Proofs.Composition
import MessagePassing.Proofs.Joining
import MessagePassing.Proofs.Recurrence
import MessagePassing.Proofs.Sessions
import MessagePassing.Proofs.OwnFeatures
import MessagePassing.Proofs.Splitting
import MessagePassing.Proofs.Documents
import MessagePassing.Proofs.Storage
import MessagePassing.Proofs.Layouts
import MessagePassing.Proofs.Descriptions
import MessagePassing.Proofs.PrintedGraphs
import MessagePassing.Proofs.ProgramTexts
import MessagePassing.Proofs.Aggregation
import MessagePassing.Proofs.Evaluation
import MessagePassing.Proofs.Printing
import MessagePassing.Proofs.IdentityNetworks
import MessagePassing.Proofs.Consumption
import MessagePassing.Proofs.Artifacts
import MessagePassing.Proofs.RepeatedRounds
import MessagePassing.Proofs.Operations
import MessagePassing.BufferSession
import MessagePassing.Proofs.Columns
import MessagePassing.Proofs.BufferSessions
import MessagePassing.Proofs.RowAccess
import MessagePassing.Proofs.DistinctSlots
import MessagePassing.Proofs.Scheduling
