import SGXessControll.Calls.Code
import SGXessControll.Calls.Machine
import SGXessControll.Calls.Contract
import SGXessControll.Calls.Frame
import SGXessControll.Calls.Transcript
import SGXessControll.Calls.Runs
import SGXessControll.Calls.Escape
import SGXessControll.Bytes.Terminated
import SGXessControll.Bytes.Word
import SGXessControll.Queue.Fifo
import SGXessControll.Attempts.Attempt
import SGXessControll.Platform
import SGXessControll.TLSClient
import SGXessControll.TLSServer
import SGXessControll.SocketUtil
import SGXessControll.Managers
import SGXessControll.Listeners
import SGXessControll.Framing
import SGXessControll.Handoff
import SGXessControll.Connection
import SGXessControll.Verification
import SGXessControll.Forwarding
import SGXessControll.Recovery
import SGXessControll.PolicyStore
import SGXessControll.Grants
import SGXessControll.Identity
import SGXessControll.Service
import SGXessControll.Transfer
import SGXessControll.Exchange
import SGXessControll.Agreement
import SGXessControll.Transport
import SGXessControll.Sending
import SGXessControll.Scanning
import SGXessControll.Intake
import SGXessControll.Streams
import SGXessControll.Lifecycle
import SGXessControll.Enforcement
import SGXessControll.Redelivery
import SGXessControll.YAML
import SGXessControll.Policy
import SGXessControll.Malformed
import SGXessControll.Acceptance
import SGXessControll.Rejection
import SGXessControll.Documents
import SGXessControll.Calls.Answers
import SGXessControll.Copies
import SGXessControll.Unframed
import SGXessControll.Counting
import SGXessControll.Attestator
import SGXessControll.Attestation
import SGXessControll.Calls.Expand
import SGXessControll.Calls.Simulation
import SGXessControll.Calls.Locks
import SGXessControll.Locking
import SGXessControll.Calls.Spans
import SGXessControll.System
import SGXessControll.Races
import SGXessControll.Addresses
import SGXessControll.Calls.Handles
import SGXessControll.Calls.Stages
import SGXessControll.Sockets
import SGXessControll.ListenerObject
import SGXessControll.Setup
import SGXessControll.AttestatorSetup
import SGXessControll.Delivery
import SGXessControll.PolicyFile
