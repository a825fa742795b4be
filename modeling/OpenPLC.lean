import OpenPLC.Apps.Bounds
import OpenPLC.Apps.Dispatch
import OpenPLC.Apps.Encoding
import OpenPLC.Apps.Exit
import OpenPLC.Apps.Grammar
import OpenPLC.Apps.Isolation
import OpenPLC.Apps.Leak
import OpenPLC.Apps.Lines
import OpenPLC.Apps.Offers
import OpenPLC.Apps.Options
import OpenPLC.Apps.PortMapper
import OpenPLC.Apps.Rexmit
import OpenPLC.Apps.Segment
import OpenPLC.Messages
import OpenPLC.OneWire.Temperature
import OpenPLC.OneWire.Update
import OpenPLC.Outputs
import OpenPLC.Ping
import OpenPLC.Uip.ArpExchange
import OpenPLC.Uip.Corruption
import OpenPLC.Uip.Diagram
import OpenPLC.Uip.Reassembly
import OpenPLC.Uip.Receive
import OpenPLC.Uip.Silence
