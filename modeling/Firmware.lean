import Firmware.Flash.Faulty
import Firmware.Http.Client
import Firmware.Json.Reading
import Firmware.Proofs.Activation
import Firmware.Proofs.Arrangement
import Firmware.Proofs.Bookkeeping
import Firmware.Proofs.Boot
import Firmware.Proofs.Cleanup
import Firmware.Proofs.Failure
import Firmware.Proofs.Layout
import Firmware.Proofs.Leftover
import Firmware.Proofs.Order
import Firmware.Proofs.Overflow
import Firmware.Proofs.Probe
import Firmware.Proofs.Publication
import Firmware.Proofs.Reassembly
import Firmware.Proofs.Request
import Firmware.Proofs.Resilience
import Firmware.Proofs.Response
import Firmware.Proofs.Retry
import Firmware.Proofs.Slot
import Firmware.Proofs.Target
import Firmware.Proofs.Terminator
import Firmware.Proofs.Tiling
import Firmware.Proofs.Torn
import Firmware.Proofs.Truncation
import Firmware.Proofs.Typing
import Firmware.Refusal
import Firmware.Service
import Firmware.Source.Rehearsed
import Firmware.Storage.Certificates
import Firmware.Storage.Settings
import Firmware.Proofs.Wording
import Firmware.Proofs.Url
import Firmware.Proofs.Fields
import Firmware.Proofs.BlankLine
import Firmware.Proofs.Progress
import Firmware.Proofs.Version
import Firmware.Proofs.Selection
import Firmware.Proofs.Lights
