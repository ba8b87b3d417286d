import OpenVSwitch.Ovsdb.Mutation
import OpenVSwitch.Json.RoundTrip
import OpenVSwitch.Cmap.Moves
import OpenVSwitch.Cmap.Refinement
import OpenVSwitch.Ofproto.Links
import OpenVSwitch.Dpif.Batch
import OpenVSwitch.Classifier.Megaflow
import OpenVSwitch.Classifier.Conjunction
import OpenVSwitch.Ovsdb.LockRuns
import OpenVSwitch.TokenBucket
import OpenVSwitch.Stp.Clock
import OpenVSwitch.Stp.Election
import OpenVSwitch.Ovsdb.MonitorRuns
import OpenVSwitch.Ovsdb.Trigger
import OpenVSwitch.Xlate.NormalSound
import OpenVSwitch.Xlate.ActionSet
import OpenVSwitch.Xlate.MirrorSelect
import OpenVSwitch.Xlate.Liveness
import OpenVSwitch.Xlate.SnoopingRuns
